import Calibration.Json.Reader
import Calibration.Proofs.Json.Quoted
import Calibration.Proofs.Json.Words

/-! # JSON is read as it was written

What is laid out on several lines is scanned to the same tokens as if it stood on one, and the reader makes
of them the value that was written. This holds of every value that is a text of its own: integers within 64
bits, finite floats, and no strings that are none.
-/
namespace Calibration.Json
open Token

/-- A value of which the text tells all. -/
inductive Storable : Json → Prop
  | null : Storable .null
  | bool (b : Bool) : Storable (.bool b)
  | int {n : Int} (hlow : -0x8000000000000000 ≤ n) (hhigh : n < 0x10000000000000000) :
    Storable (.int n)
  | float {x : Float} (hx : x.isFinite = true) : Storable (.float x)
  | text (s : String) : Storable (.str (some s))
  | arr {items : List Json} (h : ∀ j ∈ items, Storable j) : Storable (.arr items)
  | obj {members : List (Option String × Json)} (hkeys : ∀ m ∈ members, m.1.isSome = true)
    (h : ∀ m ∈ members, Storable m.2) : Storable (.obj members)

mutual

def tokens (rest : List Token) : Json → List Token
  | .str s => .str s :: rest
  | .arr [] => .openArr :: .closeArr :: rest
  | .arr (j :: items) => .openArr :: tokens (itemTokens (.closeArr :: rest) items) j
  | .obj [] => .openObj :: .closeObj :: rest
  | .obj ((key, j) :: members) =>
    .openObj :: .str key :: .colon :: tokens (memberTokens (.closeObj :: rest) members) j
  | j => .scalar j :: rest

def itemTokens (rest : List Token) : List Json → List Token
  | [] => rest
  | j :: items => .comma :: tokens (itemTokens rest items) j

def memberTokens (rest : List Token) : List (Option String × Json) → List Token
  | [] => rest
  | (key, j) :: members => .comma :: .str key :: .colon :: tokens (memberTokens rest members) j

end

section Scan

def EndsWord (cs : List Char) : Prop := ∀ c, cs.head? = some c → isWordChar c = false

theorem endsWord_cons {c : Char} (h : isWordChar c = false) (rest : List Char) : EndsWord (c :: rest) := by
  intro d hd
  cases hd
  exact h

theorem endsWord_layOutItems {depth : Nat} {rest : List Char} (h : EndsWord rest) (items : List Json) :
    EndsWord (layOutItems depth rest items) := by
  cases items with
  | nil =>
    rw [layOutItems]
    exact h
  | cons j items =>
    rw [layOutItems]
    exact endsWord_cons rfl _

theorem endsWord_layOutMembers {depth : Nat} {rest : List Char} (h : EndsWord rest)
    (members : List (Option String × Json)) : EndsWord (layOutMembers depth rest members) := by
  cases members with
  | nil =>
    rw [layOutMembers]
    exact h
  | cons m members =>
    obtain ⟨key, j⟩ := m
    rw [layOutMembers]
    exact endsWord_cons rfl _

theorem scan?_word_chars {more : List Char} (h : ∀ c ∈ more, isWordChar c = true)
    (raw rest : List Char) :
    scan? (.word raw) (more ++ rest) = scan? (.word (more.reverse ++ raw)) rest := by
  induction more generalizing raw with
  | nil => rfl
  | cons c more ih =>
    obtain ⟨hc, hmore⟩ := List.forall_mem_cons.1 h
    have hstep : step? (.word raw) c = some ([], .word (c :: raw)) := by rw [step?, if_pos hc]
    rw [List.cons_append, scan?_cons_silent hstep, ih hmore, List.reverse_cons, List.append_assoc]
    rfl

/-- A word ends where another character follows, or with the text. -/
theorem scan?_word_end {raw rest : List Char} {j : Json} (hj : word? raw.reverse = some j)
    (hrest : EndsWord rest) :
    scan? (.word raw) rest = (scan? .between rest).map (.scalar j :: ·) := by
  cases rest with
  | nil =>
    rw [scan?, finish?, hj]
    rfl
  | cons c rest =>
    have hc := hrest c rfl
    have hbetween : step? .between c = begin? c := rfl
    have hword : step? (.word raw) c = (begin? c).map fun p => (.scalar j :: p.1, p.2) := by
      rw [step?, if_neg (by simp [hc]), hj]
      cases begin? c <;> rfl
    cases hb : begin? c with
    | none =>
      rw [hb] at hbetween hword
      rw [scan?, scan?, hbetween, hword]
      rfl
    | some p =>
      rw [hb] at hbetween hword
      rw [scan?_cons hbetween, scan?_cons hword]
      cases scan? p.2 rest <;> rfl

theorem scan?_word {word : List Char} {j : Json} (h : WordFor word j) {rest : List Char}
    (hrest : EndsWord rest) :
    scan? .between (word ++ rest) = (scan? .between rest).map (.scalar j :: ·) := by
  obtain ⟨c, more, rfl⟩ := List.exists_cons_of_ne_nil h.ne_nil
  obtain ⟨hc, hmore⟩ := List.forall_mem_cons.1 h.chars
  have hspace : isSpace c = false := by
    rw [← Bool.not_eq_true]
    intro hspace
    simp only [isSpace, Bool.or_eq_true, decide_eq_true_eq, or_assoc] at hspace
    rcases hspace with rfl | rfl | rfl | rfl <;> exact absurd hc (by decide)
  have hquote : c ≠ '"' := by
    rintro rfl
    exact absurd hc (by decide)
  have hstep : step? .between c = some ([], .word [c]) := by
    rw [step?, begin?, if_neg (by simp [hspace]), if_neg hquote, if_pos hc]
  have hreads : word? (more.reverse ++ [c]).reverse = some j := by
    rw [List.reverse_append, List.reverse_reverse]
    exact h.reads
  rw [List.cons_append, scan?_cons_silent hstep, scan?_word_chars hmore, scan?_word_end hreads hrest]

theorem scan?_blanks {blanks : List Char} (h : ∀ c ∈ blanks, isSpace c = true) (rest : List Char) :
    scan? .between (blanks ++ rest) = scan? .between rest := by
  induction blanks with
  | nil => rfl
  | cons c blanks ih =>
    obtain ⟨hc, hblanks⟩ := List.forall_mem_cons.1 h
    have hstep : step? .between c = some ([], .between) := by rw [step?, begin?, if_pos hc]
    rw [List.cons_append, scan?_cons_silent hstep, ih hblanks]

theorem scan?_newline (depth : Nat) (rest : List Char) :
    scan? .between (newline depth rest) = scan? .between rest := by
  have hblanks : ∀ c ∈ '\n' :: List.replicate (2 * depth) ' ', isSpace c = true := by
    intro c hc
    rcases List.mem_cons.1 hc with rfl | hc
    · rfl
    · rw [List.eq_of_mem_replicate hc]
      rfl
  exact scan?_blanks hblanks rest

theorem scan?_mark {c : Char} {t : Token} (h : step? .between c = some ([t], .between))
    (rest : List Char) : scan? .between (c :: rest) = (scan? .between rest).map (t :: ·) :=
  scan?_cons h rest

/-- The scan of a value at any depth, before any text that ends a word. -/
def ScansTo (j : Json) : Prop := ∀ depth rest, EndsWord rest →
  scan? .between (layOut depth rest j) = (scan? .between rest).map fun ts => tokens ts j

theorem scan?_layOutItems {items : List Json} (h : ∀ j ∈ items, ScansTo j) (depth : Nat)
    {rest : List Char} (hrest : EndsWord rest) :
    scan? .between (layOutItems depth rest items) =
      (scan? .between rest).map fun ts => itemTokens ts items := by
  induction items with
  | nil =>
    rw [layOutItems]
    cases scan? .between rest <;> rfl
  | cons j items ih =>
    obtain ⟨hj, hitems⟩ := List.forall_mem_cons.1 h
    rw [layOutItems, scan?_mark rfl, scan?_newline, hj _ _ (endsWord_layOutItems hrest items),
      ih hitems]
    cases scan? .between rest <;> rfl

/-- A key, its colon and its value. -/
theorem scan?_member {s : String} {j : Json} (hj : ScansTo j) (depth : Nat) {rest : List Char}
    (hrest : EndsWord rest) :
    scan? .between (Quoted.write (some s) (':' :: ' ' :: layOut depth rest j)) =
      (scan? .between rest).map fun ts => .str (some s) :: .colon :: tokens ts j := by
  have hblank : ∀ c ∈ [' '], isSpace c = true := by simp [isSpace]
  rw [scan?_write, scan?_mark rfl, ← List.singleton_append, scan?_blanks hblank, hj _ _ hrest]
  cases scan? .between rest <;> rfl

theorem scan?_layOutMembers {members : List (Option String × Json)}
    (hkeys : ∀ m ∈ members, m.1.isSome = true) (h : ∀ m ∈ members, ScansTo m.2) (depth : Nat)
    {rest : List Char} (hrest : EndsWord rest) :
    scan? .between (layOutMembers depth rest members) =
      (scan? .between rest).map fun ts => memberTokens ts members := by
  induction members with
  | nil =>
    rw [layOutMembers]
    cases scan? .between rest <;> rfl
  | cons m members ih =>
    obtain ⟨key, j⟩ := m
    obtain ⟨hkey, hmore⟩ := List.forall_mem_cons.1 hkeys
    obtain ⟨hj, hmembers⟩ := List.forall_mem_cons.1 h
    obtain ⟨s, rfl⟩ := Option.isSome_iff_exists.1 hkey
    rw [layOutMembers, scan?_mark rfl, scan?_newline,
      scan?_member hj _ (endsWord_layOutMembers hrest members), ih hmore hmembers]
    cases scan? .between rest <;> rfl

/-- A value is scanned to its own tokens. -/
theorem Storable.scansTo {j : Json} (h : Storable j) : ScansTo j := by
  have hname (name : List Char) (j : Json) (hne : name ≠ [])
      (hchars : name.all isWordChar = true) (hreads : word? name = some j) : WordFor name j :=
    ⟨hne, List.all_eq_true.1 hchars, hreads⟩
  induction h with
  | null =>
    intro depth rest hrest
    rw [layOut, scan?_word (hname _ .null (by simp) (by decide) rfl) hrest]
    rfl
  | bool b =>
    intro depth rest hrest
    cases b with
    | true =>
      rw [layOut, scan?_word (hname _ (.bool true) (by simp) (by decide) rfl) hrest]
      rfl
    | false =>
      rw [layOut, scan?_word (hname _ (.bool false) (by simp) (by decide) rfl) hrest]
      rfl
  | int hlow hhigh =>
    intro depth rest hrest
    rw [layOut, scan?_word (wordFor_intText hlow hhigh) hrest]
    rfl
  | float hx =>
    intro depth rest hrest
    rw [layOut, scan?_word (wordFor_floatText hx) hrest]
    rfl
  | text s =>
    intro depth rest _
    rw [layOut, scan?_write]
    rfl
  | @arr items _ ih =>
    intro depth rest hrest
    have hclose (rest : List Char) : scan? .between (newline depth (']' :: rest)) =
        (scan? .between rest).map (.closeArr :: ·) := by rw [scan?_newline, scan?_mark rfl]
    cases items with
    | nil =>
      rw [layOut, scan?_mark rfl, scan?_mark rfl]
      cases scan? .between rest <;> rfl
    | cons j items =>
      obtain ⟨hj, hitems⟩ := List.forall_mem_cons.1 ih
      have hend : EndsWord (newline depth (']' :: rest)) := endsWord_cons rfl _
      rw [layOut, scan?_mark rfl, scan?_newline, hj _ _ (endsWord_layOutItems hend items),
        scan?_layOutItems hitems _ hend, hclose]
      cases scan? .between rest <;> rfl
  | @obj members hkeys _ ih =>
    intro depth rest hrest
    have hclose (rest : List Char) : scan? .between (newline depth ('\x7d' :: rest)) =
        (scan? .between rest).map (.closeObj :: ·) := by rw [scan?_newline, scan?_mark rfl]
    cases members with
    | nil =>
      rw [layOut, scan?_mark rfl, scan?_mark rfl]
      cases scan? .between rest <;> rfl
    | cons m members =>
      obtain ⟨key, j⟩ := m
      obtain ⟨hkey, hmore⟩ := List.forall_mem_cons.1 hkeys
      obtain ⟨hj, hmembers⟩ := List.forall_mem_cons.1 ih
      obtain ⟨s, rfl⟩ := Option.isSome_iff_exists.1 hkey
      have hend : EndsWord (newline depth ('\x7d' :: rest)) := endsWord_cons rfl _
      rw [layOut, scan?_mark rfl, scan?_newline,
        scan?_member hj _ (endsWord_layOutMembers hend members),
        scan?_layOutMembers hmore hmembers _ hend, hclose]
      cases scan? .between rest <;> rfl

end Scan

section Read
open Reader

/-- The reader comes from where a value may stand to behind the value, below any stack. -/
def ReadsFrom (j : Json) : Prop := ∀ (stack : List Frame) (awaited : Awaited) (rest : List Token),
  awaited = .value ∨ awaited = .itemOrClose →
    run ⟨stack, awaited⟩ (tokens rest j) = run ⟨stack, .after j⟩ rest

theorem run_cons {r next : Reader} {t : Token} (h : r.step t = some next) (rest : List Token) :
    r.run (t :: rest) = next.run rest := by
  rw [run, h]
  rfl

theorem step_value {stack : List Frame} {awaited : Awaited} {t : Token} {next : Reader}
    (ha : awaited = .value ∨ awaited = .itemOrClose) (ht : beginValue stack t = some next) :
    step ⟨stack, awaited⟩ t = some next := by
  rcases ha with rfl | rfl
  · exact ht
  · cases t with
    | closeArr => cases ht
    | _ => exact ht

theorem run_itemTokens {items : List Json} (h : ∀ j ∈ items, ReadsFrom j) (done : List Json) (j : Json)
    (stack : List Frame) (rest : List Token) :
    run ⟨.arr done :: stack, .after j⟩ (itemTokens (.closeArr :: rest) items) =
      run ⟨stack, .after (.arr (done.reverse ++ j :: items))⟩ rest := by
  induction items generalizing done j with
  | nil =>
    rw [itemTokens, run_cons rfl, List.reverse_cons]
  | cons j' items ih =>
    obtain ⟨hj', hitems⟩ := List.forall_mem_cons.1 h
    rw [itemTokens, run_cons rfl, hj' _ _ _ (.inl rfl), ih hitems, List.reverse_cons,
      List.append_assoc]
    rfl

theorem run_memberTokens {members : List (Option String × Json)} (h : ∀ m ∈ members, ReadsFrom m.2)
    (done : List (Option String × Json)) (key : Option String) (j : Json) (stack : List Frame)
    (rest : List Token) :
    run ⟨.obj done key :: stack, .after j⟩ (memberTokens (.closeObj :: rest) members) =
      run ⟨stack, .after (.obj (done.reverse ++ (key, j) :: members))⟩ rest := by
  induction members generalizing done key j with
  | nil =>
    rw [memberTokens, run_cons rfl, List.reverse_cons]
  | cons m members ih =>
    obtain ⟨key', j'⟩ := m
    obtain ⟨hj', hmembers⟩ := List.forall_mem_cons.1 h
    rw [memberTokens, run_cons rfl, run_cons rfl, run_cons rfl, hj' _ _ _ (.inl rfl), ih hmembers,
      List.reverse_cons, List.append_assoc]
    rfl

/-- The tokens of a value are read as the value. -/
theorem Storable.readsFrom {j : Json} (h : Storable j) : ReadsFrom j := by
  induction h with
  | null | bool | int | float | text =>
    intro stack awaited rest ha
    rw [tokens, run_cons (step_value ha rfl)]
    all_goals exact nofun
  | @arr items _ ih =>
    intro stack awaited rest ha
    cases items with
    | nil =>
      rw [tokens, run_cons (step_value ha rfl), run_cons rfl]
      rfl
    | cons j items =>
      obtain ⟨hj, hitems⟩ := List.forall_mem_cons.1 ih
      rw [tokens, run_cons (step_value ha rfl), hj _ _ _ (.inr rfl), run_itemTokens hitems]
      rfl
  | @obj members _ _ ih =>
    intro stack awaited rest ha
    cases members with
    | nil => rw [tokens, run_cons (step_value ha rfl), run_cons rfl]
    | cons m members =>
      obtain ⟨key, j⟩ := m
      obtain ⟨hj, hmembers⟩ := List.forall_mem_cons.1 ih
      rw [tokens, run_cons (step_value ha rfl), run_cons rfl, run_cons rfl, hj _ _ _ (.inl rfl),
        run_memberTokens hmembers]
      rfl

end Read

/-- Blanks at the end of a text change nothing. -/
theorem scan?_append_blanks {mode : Mode} {cs blanks : List Char} {ts : List Token}
    (hblanks : ∀ c ∈ blanks, isSpace c = true) (h : scan? mode cs = some ts) :
    scan? mode (cs ++ blanks) = some ts := by
  have hnone : scan? .between blanks = some [] := by
    rw [← List.append_nil blanks, scan?_blanks hblanks]
    rfl
  induction cs generalizing mode ts with
  | nil =>
    cases mode with
    | between =>
      cases h
      exact hnone
    | word raw =>
      have hends : EndsWord blanks := by
        intro c hc
        have hspace := hblanks c (List.mem_of_head? hc)
        simp only [isSpace, Bool.or_eq_true, decide_eq_true_eq, or_assoc] at hspace
        rcases hspace with rfl | rfl | rfl | rfl <;> rfl
      obtain ⟨j, hj, rfl⟩ := Option.map_eq_some_iff.1 h
      rw [List.nil_append, scan?_word_end hj hends, hnone]
      rfl
    | quoted => cases h
  | cons c cs ih =>
    rw [scan?] at h
    obtain ⟨⟨first, next⟩, hstep, h⟩ := Option.bind_eq_some_iff.1 h
    obtain ⟨more, hmore, h⟩ := Option.bind_eq_some_iff.1 h
    rw [List.cons_append, scan?_cons hstep, ih hmore]
    exact h

/-- A storable value is read from its text, and blanks may follow. -/
theorem Storable.read?_pretty {j : Json} (h : Storable j) {blanks : String}
    (hblanks : ∀ c ∈ blanks.toList, isSpace c = true) : read? (j.pretty ++ blanks) = some j := by
  have hscan : scan? .between (layOut 0 [] j) = some (tokens [] j) := by
    rw [h.scansTo 0 [] nofun]
    rfl
  have htokens : list? (j.pretty ++ blanks).toList = some (tokens [] j) := by
    rw [String.toList_append, pretty, String.toList_ofList, list?]
    exact scan?_append_blanks hblanks hscan
  unfold read?
  rw [htokens, Option.bind_eq_bind, Option.bind_some, h.readsFrom _ _ _ (.inl rfl)]
  rfl

end Calibration.Json
