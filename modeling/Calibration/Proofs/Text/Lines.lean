import Calibration.Text.Split

/-! # The lines of a text and of its octets

How a sequence is split into lines is told by a relation that reads off one line at a time. UTF-8 writes
line ends as themselves and uses their octets for nothing else, so splitting a text and splitting its
octets come to the same lines.
-/
namespace Calibration.Text
variable {α β : Type}

section Pieces
variable {stop : α → Bool} {line : List α}

theorem pieces_of_forall_not (h : ∀ a ∈ line, stop a = false) : pieces stop line = [line] := by
  induction line with
  | nil => rfl
  | cons a line ih =>
    obtain ⟨ha, hline⟩ := List.forall_mem_cons.1 h
    rw [pieces, if_neg (by simp [ha]), ih hline]

theorem pieces_append_cons (h : ∀ a ∈ line, stop a = false) {end' : α} (hend : stop end' = true)
    (rest : List α) : pieces stop (line ++ end' :: rest) = line :: pieces stop rest := by
  induction line with
  | nil => rw [List.nil_append, pieces, if_pos hend]
  | cons a line ih =>
    obtain ⟨ha, hline⟩ := List.forall_mem_cons.1 h
    rw [List.cons_append, pieces, if_neg (by simp [ha]), ih hline]

end Pieces

section DropFinal
variable [DecidableEq α]

theorem dropFinal_append_self (final : α) (xs : List α) : dropFinal final (xs ++ [final]) = xs := by
  simp [dropFinal]

theorem dropFinal_of_getLast?_ne {final : α} {xs : List α} (h : xs.getLast? ≠ some final) :
    dropFinal final xs = xs := if_neg h

theorem dropFinal_of_not_mem {final : α} {xs : List α} (h : final ∉ xs) : dropFinal final xs = xs :=
  dropFinal_of_getLast?_ne fun hlast => h (List.mem_of_getLast? hlast)

end DropFinal

/-- A sequence and its lines. A line ends before a newline, or before a return and a newline; what
follows the last newline is a line only if it is not empty. -/
inductive SplitInto (newline ret : α) : List α → List (List α) → Prop
  | empty : SplitInto newline ret [] []
  | unended {line : List α} (hne : line ≠ []) (hline : newline ∉ line) :
    SplitInto newline ret line [line]
  | ended {line rest : List α} {ls : List (List α)} (hline : newline ∉ line)
    (hret : line.getLast? ≠ some ret) (hrest : SplitInto newline ret rest ls) :
    SplitInto newline ret (line ++ newline :: rest) (line :: ls)
  | endedByPair {line rest : List α} {ls : List (List α)} (hline : newline ∉ line)
    (hrest : SplitInto newline ret rest ls) :
    SplitInto newline ret (line ++ ret :: newline :: rest) (line :: ls)

variable {newline ret : α}

theorem splitLines_of_not_mem [DecidableEq α] {line : List α} (h : newline ∉ line) :
    splitLines newline ret line = if line.isEmpty then [] else [line] := by
  have hpieces : pieces (fun a => a = newline) line = [line] :=
    pieces_of_forall_not fun a ha => decide_eq_false fun he : a = newline => h (he ▸ ha)
  simp [splitLines, hpieces]

theorem splitLines_append_cons [DecidableEq α] {line : List α} (h : newline ∉ line) (rest : List α) :
    splitLines newline ret (line ++ newline :: rest) =
      dropFinal ret line :: splitLines newline ret rest := by
  have hpieces : pieces (fun a => a = newline) (line ++ newline :: rest) =
      line :: pieces (fun a => a = newline) rest :=
    pieces_append_cons (fun a ha => decide_eq_false fun he : a = newline => h (he ▸ ha)) (decide_eq_true rfl) rest
  obtain ⟨piece, more, hmore⟩ := List.exists_cons_of_ne_nil
    (pieces_ne_nil (fun a : α => a = newline) rest)
  simp only [splitLines, hpieces, hmore, List.dropLast_cons_cons, List.map_cons, List.getLast?_cons_cons,
    List.cons_append]

theorem splitLines_unended [DecidableEq α] {line : List α} (hne : line ≠ []) (h : newline ∉ line) :
    splitLines newline ret line = [line] := by
  rw [splitLines_of_not_mem h, if_neg (by simpa using hne)]

theorem splitLines_append_pair [DecidableEq α] (hne : newline ≠ ret) {line : List α} (h : newline ∉ line)
    (rest : List α) : splitLines newline ret (line ++ ret :: newline :: rest) =
      line :: splitLines newline ret rest := by
  have hsnoc : newline ∉ line ++ [ret] := by simp [h, hne]
  have hassoc : line ++ ret :: newline :: rest = (line ++ [ret]) ++ newline :: rest := by simp
  rw [hassoc, splitLines_append_cons hsnoc, dropFinal_append_self]

/-- The lines of a sequence that consists of ended lines. -/
theorem splitLines_flatMap [DecidableEq α] {ls : List (List α)} (h : ∀ line ∈ ls, newline ∉ line) :
    splitLines newline ret (ls.flatMap fun line => line ++ [newline]) = ls.map (dropFinal ret) := by
  induction ls with
  | nil => rfl
  | cons line ls ih =>
    obtain ⟨hline, hls⟩ := List.forall_mem_cons.1 h
    rw [List.flatMap_cons, List.append_assoc, List.singleton_append, splitLines_append_cons hline, ih hls,
      List.map_cons]

namespace SplitInto

/-- The relation holds of the lines that are found, and of no others. -/
theorem splitLines_eq [DecidableEq α] (hne : newline ≠ ret) {xs : List α} {ls : List (List α)}
    (h : SplitInto newline ret xs ls) : splitLines newline ret xs = ls := by
  induction h with
  | empty => rfl
  | unended hline hmem => exact splitLines_unended hline hmem
  | ended hmem hret _ ih => rw [splitLines_append_cons hmem, ih, dropFinal_of_getLast?_ne hret]
  | endedByPair hmem _ ih => rw [splitLines_append_pair hne hmem, ih]

theorem of_splitLines [DecidableEq α] (xs : List α) :
    SplitInto newline ret xs (splitLines newline ret xs) := by
  -- Induction on the length, since a line is taken off at a time.
  induction hn : xs.length using Nat.strongRecOn generalizing xs with
  | ind n ih =>
    by_cases hmem : newline ∈ xs
    · obtain ⟨line, rest, rfl, hline⟩ := List.eq_append_cons_of_mem hmem
      have hrest : SplitInto newline ret rest (splitLines newline ret rest) := by
        refine ih rest.length ?_ rest rfl
        rw [← hn, List.length_append, List.length_cons]
        omega
      rw [splitLines_append_cons hline]
      by_cases hret : line.getLast? = some ret
      · obtain ⟨init, rfl⟩ := List.getLast?_eq_some_iff.1 hret
        have hinit : newline ∉ init := fun h => hline (List.mem_append_left _ h)
        rw [dropFinal_append_self, List.append_assoc]
        exact .endedByPair hinit hrest
      · rw [dropFinal_of_getLast?_ne hret]
        exact .ended hline hret hrest
    · rw [splitLines_of_not_mem hmem]
      cases xs with
      | nil => exact .empty
      | cons a xs => exact .unended (by simp) hmem

theorem iff_splitLines_eq [DecidableEq α] (hne : newline ≠ ret) {xs : List α} {ls : List (List α)} :
    SplitInto newline ret xs ls ↔ splitLines newline ret xs = ls :=
  ⟨splitLines_eq hne, fun h => h ▸ of_splitLines xs⟩

/-- After a newline the lines of what follows are added to those before. -/
theorem append {xs ys : List α} {ls ls' : List (List α)} (h : SplitInto newline ret xs ls)
    (hend : ∀ a, xs.getLast? = some a → a = newline) (h' : SplitInto newline ret ys ls') :
    SplitInto newline ret (xs ++ ys) (ls ++ ls') := by
  have htail {line rest : List α} (h : ∀ a, (line ++ newline :: rest).getLast? = some a → a = newline) :
      ∀ a, rest.getLast? = some a → a = newline := by
    intro a ha
    apply h
    rw [List.getLast?_append, List.getLast?_cons, ha]
    rfl
  induction h with
  | empty => exact h'
  | @unended line hne hmem =>
    obtain ⟨a, ha⟩ := Option.isSome_iff_exists.1 (List.getLast?_isSome.2 hne)
    exact absurd (hend a ha ▸ List.mem_of_getLast? ha) hmem
  | @ended line rest ls hmem hret _ ih =>
    rw [List.append_assoc, List.cons_append, List.cons_append]
    exact .ended hmem hret (ih (htail hend))
  | @endedByPair line rest ls hmem _ ih =>
    rw [List.append_assoc, List.cons_append, List.cons_append, List.cons_append]
    have hpair : ∀ a, ((line ++ [ret]) ++ newline :: rest).getLast? = some a → a = newline := by
      rwa [List.append_assoc]
    exact .endedByPair hmem (ih (htail hpair))

end SplitInto

/-- An encoding that writes line ends as single units, which appear in nothing else that it writes. -/
structure KeepsLineEnds (enc : α → List β) (newline ret : α) (newline' ret' : β) : Prop where
  enc_newline : enc newline = [newline']
  enc_ret : enc ret = [ret']
  newline_of_mem : ∀ a, newline' ∈ enc a → a = newline
  ret_of_getLast? : ∀ a, (enc a).getLast? = some ret' → a = ret
  ne_nil : ∀ a, enc a ≠ []

section Encoding
variable {enc : α → List β} {newline' ret' : β} (henc : KeepsLineEnds enc newline ret newline' ret')
include henc

theorem KeepsLineEnds.not_mem_flatMap {line : List α} (h : newline ∉ line) :
    newline' ∉ line.flatMap enc := by
  intro hmem
  obtain ⟨a, ha, hmem⟩ := List.mem_flatMap.1 hmem
  exact h (henc.newline_of_mem a hmem ▸ ha)

theorem KeepsLineEnds.getLast?_flatMap_ne {line : List α} (h : line.getLast? ≠ some ret) :
    (line.flatMap enc).getLast? ≠ some ret' := by
  intro hlast
  rcases List.eq_nil_or_concat line with rfl | ⟨init, a, rfl⟩
  · cases hlast
  · obtain ⟨b, hb⟩ := Option.isSome_iff_exists.1 (List.getLast?_isSome.2 (henc.ne_nil a))
    have hlast' : (enc a).getLast? = some ret' := by
      rw [List.concat_eq_append, List.flatMap_append, List.flatMap_singleton, List.getLast?_append,
        hb, Option.some_or] at hlast
      rw [hb, hlast]
    exact h (by simp [henc.ret_of_getLast? a hlast'])

theorem SplitInto.encode {xs : List α} {ls : List (List α)} (h : SplitInto newline ret xs ls) :
    SplitInto newline' ret' (xs.flatMap enc) (ls.map fun line => line.flatMap enc) := by
  induction h with
  | empty => exact .empty
  | @unended line hne hmem =>
    have hne' : line.flatMap enc ≠ [] := by
      intro hnil
      cases line with
      | nil => exact hne rfl
      | cons a line => exact henc.ne_nil a (List.flatMap_eq_nil_iff.1 hnil a List.mem_cons_self)
    exact .unended hne' (henc.not_mem_flatMap hmem)
  | ended hmem hret _ ih =>
    rw [List.flatMap_append, List.flatMap_cons, henc.enc_newline]
    exact .ended (henc.not_mem_flatMap hmem) (henc.getLast?_flatMap_ne hret) ih
  | endedByPair hmem _ ih =>
    rw [List.flatMap_append, List.flatMap_cons, List.flatMap_cons, henc.enc_newline, henc.enc_ret]
    exact .endedByPair (henc.not_mem_flatMap hmem) ih

end Encoding

def octets (text : String) : List UInt8 := text.toUTF8.data.toList

theorem octets_eq (text : String) : octets text = text.toList.flatMap String.utf8EncodeChar := by
  conv => lhs; rw [← String.ofList_toList (s := text)]
  exact List.toList_data_toByteArray

theorem toByteArray_octets (text : String) : (octets text).toByteArray = text.toUTF8 :=
  ByteArray.ext (by simp [octets])

/-- Octets below 128 stand for themselves. -/
theorem utf8EncodeChar_of_mem_ascii {c : Char} {b : UInt8} (hb : b.toNat < 128)
    (h : b ∈ String.utf8EncodeChar c) : String.utf8EncodeChar c = [b] ∧ c.toNat = b.toNat := by
  -- An octet of a longer sequence has its highest bit set.
  have hhigh (x y : UInt8) (hy : 128 ≤ y.toNat) : b ≠ x ||| y := by
    rintro rfl
    have hle : y.toNat ≤ (x ||| y).toNat := by
      rw [UInt8.toNat_or]
      exact Nat.right_le_or
    omega
  rcases Char.utf8Size_eq c with hc | hc | hc | hc
  · rw [String.utf8EncodeChar_eq_singleton hc] at h ⊢
    have hval : c.val.toNat ≤ 127 := UInt32.le_iff_toNat_le.1 (Char.utf8Size_eq_one_iff.1 hc)
    rw [List.mem_singleton] at h
    subst h
    refine ⟨rfl, ?_⟩
    rw [UInt32.toNat_toUInt8, Nat.mod_eq_of_lt (by omega)]
    rfl
  · rw [String.utf8EncodeChar_eq_cons_cons hc] at h
    simp [hhigh _ 0xc0 (by decide), hhigh _ 0x80 (by decide)] at h
  · rw [String.utf8EncodeChar_eq_cons_cons_cons hc] at h
    simp [hhigh _ 0xe0 (by decide), hhigh _ 0x80 (by decide)] at h
  · rw [String.utf8EncodeChar_eq_cons_cons_cons_cons hc] at h
    simp [hhigh _ 0xf0 (by decide), hhigh _ 0x80 (by decide)] at h

/-- In UTF-8 no other character has the octets of a line end in it. -/
theorem keepsLineEnds_utf8 : KeepsLineEnds String.utf8EncodeChar '\n' '\r' 0x0a 0x0d where
  enc_newline := rfl
  enc_ret := rfl
  newline_of_mem c h := by
    obtain ⟨-, hc⟩ := utf8EncodeChar_of_mem_ascii (by decide) h
    exact Char.toNat_inj.1 hc
  ret_of_getLast? c h := by
    obtain ⟨-, hc⟩ := utf8EncodeChar_of_mem_ascii (by decide) (List.mem_of_getLast? h)
    exact Char.toNat_inj.1 hc
  ne_nil _ := String.utf8EncodeChar_ne_nil

theorem byteLines_toUTF8 (text : String) : byteLines text.toUTF8 = (lines text).map String.toUTF8 := by
  have hchars : SplitInto '\n' '\r' text.toList (splitLines '\n' '\r' text.toList) :=
    .of_splitLines _
  have hoctets := (hchars.encode keepsLineEnds_utf8).splitLines_eq (by decide)
  rw [← octets_eq] at hoctets
  unfold byteLines lines
  rw [octets] at hoctets
  rw [hoctets, List.map_map, List.map_map]
  exact List.map_congr_left fun line _ => rfl

end Calibration.Text
