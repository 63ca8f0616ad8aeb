import Calibration.Proofs.Text.Lines
import Calibration.Table.Reader

/-! # Reading a table from a file

A file is read line by line, and each line is decoded when its turn comes. So a line that is not UTF-8 is
an error only if the reading gets that far, and what stands after the line that ends the reading is never
looked at. A file that holds a text as UTF-8 is read as that text is.
-/
namespace Calibration.Table
open Text

inductive Reader.Takes : Reader → List String → Reader → Prop
  | nil {r : Reader} : Takes r [] r
  | cons {r next last : Reader} {raw : String} {raws : List String}
    (h : r.feed raw = (next, .ok .proceed)) (hrest : next.Takes raws last) :
    Takes r (raw :: raws) last

/-- What comes of the lines of the file at `path`, as octets. -/
inductive FileReading (path : String) (ls : List (List UInt8)) : Except TableError Parsed → Prop
  | complete {texts : List String} {r : Reader} (hls : ls = texts.map octets)
    (h : Reader.start.Takes texts r) : FileReading path ls (.ok r.parsed)
  | stopped {texts : List String} {r next : Reader} {raw : String} {rest : List (List UInt8)}
    (hls : ls = texts.map octets ++ octets raw :: rest) (h : Reader.start.Takes texts r)
    (hraw : r.feed raw = (next, .ok .stop)) : FileReading path ls (.ok next.parsed)
  | malformed {texts : List String} {r : Reader} {raw content : String} {number : Nat}
    {rest : List (List UInt8)} (hls : ls = texts.map octets ++ octets raw :: rest)
    (h : Reader.start.Takes texts r) (hraw : (r.feed raw).2 = .error (.malformed number content)) :
    FileReading path ls (.error (.malformed number content))
  | notUtf8 {texts : List String} {r : Reader} {line : List UInt8} {rest : List (List UInt8)}
    (hls : ls = texts.map octets ++ line :: rest) (h : Reader.start.Takes texts r)
    (hline : ∀ text, octets text ≠ line) : FileReading path ls (.error (.unreadable path .notUtf8))

def lineOf (path : String) (line : List UInt8) : Except TableError String :=
  match Folder.decodeText line.toByteArray with
  | .ok text => .ok text
  | .error fault => .error (.unreadable path fault)

theorem lineOf_octets (path text : String) : lineOf path (octets text) = .ok text := by
  rw [lineOf, toByteArray_octets, Folder.decodeText_toUTF8]

theorem lineOf_of_forall_ne {path : String} {line : List UInt8} (h : ∀ text, octets text ≠ line) :
    lineOf path line = .error (.unreadable path .notUtf8) := by
  have hinvalid : ¬line.toByteArray.IsValidUTF8 := by
    intro hvalid
    refine h (String.fromUTF8 line.toByteArray hvalid) ?_
    exact List.toList_data_toByteArray
  rw [lineOf, Folder.decodeText, String.fromUTF8?, dif_neg hinvalid]

theorem fileLines_eq (path : String) (bytes : ByteArray) :
    fileLines path bytes = (splitLines 0x0a 0x0d bytes.data.toList).map (lineOf path) := by
  rw [fileLines, byteLines, List.map_map]
  rfl

/-- A malformed line is the only error that a line can be. -/
theorem Reader.feed_cases (r : Reader) (raw : String) :
    (∃ next, r.feed raw = (next, .ok .proceed)) ∨ (∃ next, r.feed raw = (next, .ok .stop)) ∨
      ∃ next number content, r.feed raw = (next, .error (.malformed number content)) := by
  unfold feed
  split
  · exact .inr (.inl ⟨_, rfl⟩)
  · dsimp only
    split
    · exact .inl ⟨_, rfl⟩
    · exact .inl ⟨_, rfl⟩
    · exact .inr (.inl ⟨_, rfl⟩)
    · exact .inr (.inr ⟨_, _, _, rfl⟩)

section Run
variable {path : String}

theorem Reader.Takes.snoc {r last next : Reader} {raws : List String} {raw : String}
    (h : r.Takes raws last) (hraw : last.feed raw = (next, .ok .proceed)) :
    r.Takes (raws ++ [raw]) next := by
  induction h with
  | nil => exact .cons hraw .nil
  | cons hfirst _ ih => exact .cons hfirst (ih hraw)

theorem Reader.Takes.run {r last : Reader} {raws : List String} (h : r.Takes raws last)
    (rest : List (List UInt8)) :
    r.run ((raws.map octets ++ rest).map (lineOf path)) = last.run (rest.map (lineOf path)) := by
  induction h with
  | nil => rfl
  | cons hfirst _ ih =>
    rw [List.map_cons, List.cons_append, List.map_cons, lineOf_octets, Reader.run]
    simp only [hfirst]
    exact ih

/-- From a reader that has taken in some lines, the run over the rest is the reading of all. -/
theorem fileReading_run {texts : List String} {r : Reader} (h : Reader.start.Takes texts r)
    (rest : List (List UInt8)) :
    FileReading path (texts.map octets ++ rest)
      ((r.run (rest.map (lineOf path))).map Reader.parsed) := by
  induction rest generalizing texts r with
  | nil =>
    rw [List.append_nil]
    exact .complete rfl h
  | cons line rest ih =>
    by_cases hline : ∃ text, octets text = line
    · obtain ⟨raw, rfl⟩ := hline
      rw [List.map_cons, lineOf_octets, Reader.run]
      rcases r.feed_cases raw with ⟨next, hf⟩ | ⟨next, hf⟩ | ⟨next, number, content, hf⟩
      · have hnext := ih (h.snoc hf)
        rw [List.map_append, List.append_assoc] at hnext
        simp only [hf]
        exact hnext
      · simp only [hf]
        exact .stopped rfl h hf
      · simp only [hf]
        exact .malformed rfl h (by rw [hf])
    · have hne : ∀ text, octets text ≠ line := fun text he => hline ⟨text, he⟩
      rw [List.map_cons, lineOf_of_forall_ne hne, Reader.run]
      exact .notUtf8 rfl h hne

theorem FileReading.run_eq {ls : List (List UInt8)} {result : Except TableError Parsed}
    (h : FileReading path ls result) :
    (Reader.start.run (ls.map (lineOf path))).map Reader.parsed = result := by
  cases h with
  | @complete texts r hls h =>
    have hrun : Reader.start.run ((texts.map octets ++ []).map (lineOf path)) =
        r.run ([].map (lineOf path)) := h.run []
    rw [List.append_nil, ← hls] at hrun
    rw [hrun]
    rfl
  | stopped hls h hraw =>
    rw [hls, h.run, List.map_cons, lineOf_octets, Reader.run]
    simp only [hraw]
    rfl
  | @malformed texts r raw content number rest hls h hraw =>
    have hfeed : r.feed raw = ((r.feed raw).1, .error (.malformed number content)) :=
      Prod.ext rfl hraw
    rw [hls, h.run, List.map_cons, lineOf_octets, Reader.run, hfeed]
    rfl
  | notUtf8 hls h hline =>
    rw [hls, h.run, List.map_cons, lineOf_of_forall_ne hline]
    rfl

end Run

theorem parseFile_eq (path : String) (bytes : ByteArray) :
    parseFile path (.ok bytes) = (Reader.start.run
      ((splitLines 0x0a 0x0d bytes.data.toList).map (lineOf path))).map Reader.parsed := by
  rw [← fileLines_eq]
  rfl

/-- The reading of a file is decided by its lines. -/
theorem parseFile_eq_iff {path : String} {bytes : ByteArray} {result : Except TableError Parsed} :
    parseFile path (.ok bytes) = result ↔
      ∃ ls, SplitInto 0x0a 0x0d bytes.data.toList ls ∧ FileReading path ls result := by
  rw [parseFile_eq]
  constructor
  · rintro rfl
    exact ⟨_, .of_splitLines _, fileReading_run .nil _⟩
  · rintro ⟨ls, hls, h⟩
    rw [hls.splitLines_eq (by decide), h.run_eq]

theorem parseFile_unreadable_iff {path : String} {bytes : ByteArray} :
    (∃ path' fault, parseFile path (.ok bytes) = .error (.unreadable path' fault)) ↔
      ∃ texts line rest r, SplitInto 0x0a 0x0d bytes.data.toList (texts.map octets ++ line :: rest) ∧
        Reader.start.Takes texts r ∧ ∀ text, octets text ≠ line := by
  constructor
  · rintro ⟨path', fault, h⟩
    obtain ⟨ls, hls, hread⟩ := parseFile_eq_iff.1 h
    cases hread with
    | notUtf8 hsplit htakes hline => exact ⟨_, _, _, _, hsplit ▸ hls, htakes, hline⟩
  · rintro ⟨texts, line, rest, r, hls, htakes, hline⟩
    exact ⟨path, .notUtf8, parseFile_eq_iff.2 ⟨_, hls, .notUtf8 rfl htakes hline⟩⟩

/-- A line that ends the reading tells all of the result. -/
theorem parseFile_of_ends {path : String} {head tail : List UInt8} {texts : List String}
    {raw : String} {r : Reader}
    (hls : SplitInto 0x0a 0x0d (head ++ [0x0a]) (texts.map octets ++ [octets raw]))
    (htakes : Reader.start.Takes texts r) (hraw : (r.feed raw).2 ≠ .ok .proceed) :
    parseFile path (.ok (head ++ 0x0a :: tail).toByteArray) =
      (r.feed raw).2.map fun _ => (r.feed raw).1.parsed := by
  have hall : SplitInto 0x0a 0x0d (head ++ 0x0a :: tail).toByteArray.data.toList
      (texts.map octets ++ octets raw :: splitLines 0x0a 0x0d tail) := by
    have happend := hls.append (by simp) (.of_splitLines tail)
    rw [List.append_assoc, List.append_assoc] at happend
    rw [List.toList_data_toByteArray]
    exact happend
  refine parseFile_eq_iff.2 ⟨_, hall, ?_⟩
  rcases r.feed_cases raw with ⟨next, hf⟩ | ⟨next, hf⟩ | ⟨next, number, content, hf⟩
  · exact absurd (by rw [hf]) hraw
  · rw [hf]
    exact .stopped rfl htakes hf
  · rw [hf]
    exact .malformed rfl htakes (by rw [hf])

theorem parseFile_toUTF8 (path text : String) :
    parseFile path (.ok text.toUTF8) = parseText text := by
  have hlines : fileLines path text.toUTF8 = textLines text := by
    rw [fileLines, byteLines_toUTF8, List.map_map, textLines]
    refine List.map_congr_left fun line _ => ?_
    have hline := lineOf_octets path line
    rw [lineOf, toByteArray_octets] at hline
    exact hline
  change parseLines (fileLines path text.toUTF8) = parseText text
  rw [hlines]
  rfl

/-- Reading a file is feeding its lines until one ends the reading. A line that is not UTF-8 is an error
if it is reached, nothing after the end of the reading counts, and UTF-8 is read as its text is. -/
theorem parseFile_reads_lines (path : String) :
    (∀ bytes result, parseFile path (.ok bytes) = result ↔
      ∃ ls, SplitInto 0x0a 0x0d bytes.data.toList ls ∧ FileReading path ls result) ∧
    (∀ bytes, (∃ path' fault, parseFile path (.ok bytes) = .error (.unreadable path' fault)) ↔
      ∃ texts line rest r, SplitInto 0x0a 0x0d bytes.data.toList (texts.map octets ++ line :: rest) ∧
        Reader.start.Takes texts r ∧ ∀ text, octets text ≠ line) ∧
    (∀ head texts raw r, SplitInto 0x0a 0x0d (head ++ [0x0a]) (texts.map octets ++ [octets raw]) →
      Reader.start.Takes texts r → (r.feed raw).2 ≠ .ok .proceed → ∀ tail,
        parseFile path (.ok (head ++ 0x0a :: tail).toByteArray) =
          (r.feed raw).2.map fun _ => (r.feed raw).1.parsed) ∧
    (∀ text, parseFile path (.ok text.toUTF8) = parseText text) :=
  ⟨fun _ _ => parseFile_eq_iff, fun _ => parseFile_unreadable_iff,
    fun _ _ _ _ hls htakes hraw _ => parseFile_of_ends hls htakes hraw, parseFile_toUTF8 path⟩

/-- A blank line ends the table in its second section, so an octet that begins no text may follow. -/
theorem parseFile_of_blank_line_in_int4 : ∃ r : Reader, Reader.start.Takes ["#int4_th"] r ∧
    parseFile "t" (.ok ((octets "#int4_th\n") ++ 0x0a :: [0xff]).toByteArray) =
      (r.feed "").2.map (fun _ => (r.feed "").1.parsed) ∧
    (r.feed "").1.status = .truncated 2 "" := by
  have htakes : Reader.start.Takes ["#int4_th"] (Reader.start.feed "#int4_th").1 := .cons rfl .nil
  have hls : SplitInto 0x0a 0x0d (octets "#int4_th\n" ++ [0x0a])
      (["#int4_th"].map octets ++ [octets ""]) :=
    (SplitInto.iff_splitLines_eq (by decide)).2 (by decide)
  have hstop : ((Reader.start.feed "#int4_th").1.feed "").2 = .ok .stop := rfl
  have hstatus : ((Reader.start.feed "#int4_th").1.feed "").1.status = .truncated 2 "" := rfl
  have hends : ((Reader.start.feed "#int4_th").1.feed "").2 ≠ .ok .proceed := by
    rw [hstop]
    exact nofun
  exact ⟨_, htakes, (parseFile_reads_lines "t").2.2.1 _ _ _ _ hls htakes hends _, hstatus⟩

end Calibration.Table
