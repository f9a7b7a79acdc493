import Bindery.Proofs.Json.Strings
import Bindery.Proofs.Selection.Names
import Bindery.Proofs.Text.Coding
import Bindery.Selection.Store

/-!
# What a stored selection is read as

The file of a selection is an object of two members, the mode and the list of names, in ASCII.  A
canonical selection is read from its own file.

* `Json.read_write_toJson`: the text of the file is read as the stored form.
* `SelectionStore.decode_encode`: the bytes of the file stand for the selection.
-/

namespace Bindery

namespace Json

/-! ## Written forms -/

theorem writeAt_string (layout : Layout) (level : Nat) (s : Text) :
    writeAt layout level (.string s) = writeString layout.asciiOnly s := rfl

theorem writeAt_array_cons (layout : Layout) (level : Nat) (v : Json) (vs : List Json) :
    writeAt layout level (.array (v :: vs)) =
      '[' :: lineBreak layout (level + 1) ++ writeItems layout (level + 1) (v :: vs) ++
        lineBreak layout level ++ [']'] := rfl

theorem writeAt_object_cons (layout : Layout) (level : Nat) (m : Text × Json)
    (ms : List (Text × Json)) :
    writeAt layout level (.object (m :: ms)) =
      '{' :: lineBreak layout (level + 1) ++ writeMembers layout (level + 1) (m :: ms) ++
        lineBreak layout level ++ ['}'] := rfl

theorem writeItems_singleton (layout : Layout) (level : Nat) (v : Json) :
    writeItems layout level [v] = writeAt layout level v := rfl

theorem writeItems_cons_cons (layout : Layout) (level : Nat) (v w : Json) (r : List Json) :
    writeItems layout level (v :: w :: r) =
      writeAt layout level v ++ separator layout level ++ writeItems layout level (w :: r) := rfl

theorem writeMembers_singleton (layout : Layout) (level : Nat) (n : Text) (v : Json) :
    writeMembers layout level [(n, v)] =
      writeString layout.asciiOnly n ++ ':' :: ' ' :: writeAt layout level v := rfl

theorem writeMembers_cons_cons (layout : Layout) (level : Nat) (n : Text) (v : Json)
    (m : Text × Json) (r : List (Text × Json)) :
    writeMembers layout level ((n, v) :: m :: r) =
      writeString layout.asciiOnly n ++ ':' :: ' ' :: writeAt layout level v ++
        separator layout level ++ writeMembers layout level (m :: r) := rfl

/-! ## Space between tokens -/

theorem skipSpace_replicate (n : Nat) (r : Text) :
    skipSpace (List.replicate n ' ' ++ r) = skipSpace r := by
  induction n with
  | zero => rfl
  | succ n ih => exact ih

@[simp] theorem skipSpace_lineBreak (layout : Layout) (level : Nat) (r : Text) :
    skipSpace (lineBreak layout level ++ r) = skipSpace r := by
  unfold lineBreak
  split
  · rfl
  · exact skipSpace_replicate _ r

/-- A separator is a comma and space. -/
theorem exists_separator_append (layout : Layout) (level : Nat) (r : Text) :
    ∃ s, separator layout level ++ r = ',' :: s ∧ skipSpace s = skipSpace r := by
  unfold separator
  split
  · exact ⟨' ' :: r, rfl, rfl⟩
  · exact ⟨lineBreak layout level ++ r, rfl, skipSpace_lineBreak layout level r⟩

/-- A text in quotes begins with no space. -/
theorem skipSpace_writeString (asciiOnly : Bool) (s r : Text) :
    skipSpace (writeString asciiOnly s ++ r) = writeString asciiOnly s ++ r := rfl

/-! ## Lists of texts -/

theorem writeItems_string_cons (layout : Layout) (level : Nat) (s : Text) (names : List Text) :
    ∃ rest, writeItems layout level ((s :: names).map string) =
      writeString layout.asciiOnly s ++ rest := by
  cases names with
  | nil =>
    refine ⟨[], ?_⟩
    rw [List.map_cons, List.map_nil, writeItems_singleton, writeAt_string, List.append_nil]
  | cons t names =>
    refine ⟨separator layout level ++ writeItems layout level ((t :: names).map string), ?_⟩
    rw [List.map_cons, List.map_cons, writeItems_cons_cons, writeAt_string, List.append_assoc]

/-- The texts of a list are read up to its closing bracket. -/
theorem items_writeItems_string (layout : Layout) (level depth : Nat) {names : List Text}
    (hne : names ≠ []) {fuel : Nat} (hfuel : names.length < fuel) {e r : Text}
    (he : skipSpace e = ']' :: r) :
    items depth fuel (writeItems layout level (names.map string) ++ e) =
      .ok (names.map string, r) := by
  induction names generalizing fuel with
  | nil => exact absurd rfl hne
  | cons s names ih =>
    rw [List.length_cons] at hfuel
    obtain ⟨fuel, rfl⟩ : ∃ f, fuel = f + 2 := ⟨fuel - 2, by omega⟩
    cases names with
    | nil =>
      rw [List.map_cons, List.map_nil, writeItems_singleton, writeAt_string, items,
        value_writeString]
      simp only [he]
    | cons t names =>
      obtain ⟨rest, hrest⟩ := writeItems_string_cons layout level t names
      obtain ⟨after, hsep, hafter⟩ := exists_separator_append layout level
        (writeItems layout level ((t :: names).map string) ++ e)
      have hcomma : skipSpace (',' :: after) = ',' :: after := rfl
      have hnext : skipSpace after = writeItems layout level ((t :: names).map string) ++ e := by
        rw [hafter, hrest, List.append_assoc, skipSpace_writeString]
      have hbelow : items depth (fuel + 1) _ = _ := ih (List.cons_ne_nil t names) (by omega)
      rw [List.map_cons, List.map_cons, writeItems_cons_cons, ← List.map_cons, writeAt_string,
        List.append_assoc, List.append_assoc, hsep, items, value_writeString]
      simp only [hcomma, hnext, hbelow]
      rfl

/-- A list that has items. -/
theorem value_bracket {r : Text} (hr : ∀ t, skipSpace r ≠ ']' :: t) (depth fuel : Nat) :
    value (depth + 1) (fuel + 1) ('[' :: r) =
      (items depth fuel (skipSpace r)).map fun x => (.array x.1, x.2) :=
  value.eq_5 fuel r depth hr

/-- A list has at least as many characters as items. -/
theorem length_le_writeAt_strings (layout : Layout) (level : Nat) (names : List Text) :
    names.length ≤ (writeAt layout level (.array (names.map string))).length := by
  have hitems : names.length ≤ (writeItems layout (level + 1) (names.map string)).length := by
    induction names with
    | nil => exact Nat.zero_le _
    | cons s names ih =>
      have hquote : 1 ≤ (writeString layout.asciiOnly s).length := by
        rw [writeString, List.cons_append, List.length_cons]
        omega
      cases names with
      | nil =>
        rw [List.map_cons, List.map_nil, writeItems_singleton, writeAt_string]
        exact hquote
      | cons t names =>
        rw [List.map_cons, List.map_cons, writeItems_cons_cons, writeAt_string, ← List.map_cons,
          List.length_append, List.length_append, List.length_cons]
        omega
  cases names with
  | nil => exact Nat.zero_le _
  | cons s names =>
    rw [List.map_cons, List.length_cons] at hitems
    rw [List.map_cons, writeAt_array_cons]
    simp only [List.length_append, List.length_cons]
    omega

theorem exists_writeAt_array (layout : Layout) (level : Nat) (vs : List Json) :
    ∃ rest, writeAt layout level (.array vs) = '[' :: rest := by
  cases vs with
  | nil => exact ⟨[']'], rfl⟩
  | cons v vs => exact ⟨_, rfl⟩

/-- A list of texts is read from its written form in front of anything. -/
theorem value_writeAt_strings (layout : Layout) (level depth : Nat) {names : List Text}
    {fuel : Nat} (hfuel : names.length + 1 < fuel) (r : Text) :
    value (depth + 1) fuel (writeAt layout level (.array (names.map string)) ++ r) =
      .ok (.array (names.map string), r) := by
  obtain ⟨fuel, rfl⟩ : ∃ f, fuel = f + 1 := ⟨fuel - 1, by omega⟩
  cases names with
  | nil =>
    rw [List.map_nil]
    rfl
  | cons s names =>
    have hitems : items depth fuel _ = _ := items_writeItems_string layout (level + 1) depth
      (List.cons_ne_nil s names) (by omega) (skipSpace_lineBreak layout level (']' :: r))
    obtain ⟨rest, hrest⟩ := writeItems_string_cons layout (level + 1) s names
    have hopen : writeAt layout level (.array ((s :: names).map string)) ++ r =
        '[' :: (lineBreak layout (level + 1) ++ (writeItems layout (level + 1)
          ((s :: names).map string) ++ (lineBreak layout level ++ ']' :: r))) := by
      rw [List.map_cons, writeAt_array_cons]
      simp
    have hspace : skipSpace (lineBreak layout (level + 1) ++ (writeItems layout (level + 1)
        ((s :: names).map string) ++ (lineBreak layout level ++ ']' :: r))) =
        writeItems layout (level + 1) ((s :: names).map string) ++
          (lineBreak layout level ++ ']' :: r) := by
      rw [skipSpace_lineBreak, hrest, List.append_assoc, skipSpace_writeString]
    have hfirst : ∀ t, skipSpace (lineBreak layout (level + 1) ++ (writeItems layout (level + 1)
        ((s :: names).map string) ++ (lineBreak layout level ++ ']' :: r))) ≠ ']' :: t := by
      intro t ht
      rw [hspace, hrest] at ht
      exact absurd (List.cons.inj ht).1 (by decide)
    rw [hopen, value_bracket hfirst, hspace, hitems]
    rfl

/-! ## Objects -/

/-- The last member of an object. -/
theorem members_last (asciiOnly : Bool) {depth fuel : Nat} (name : Text) {s e r : Text} {v : Json}
    (hvalue : value depth fuel (skipSpace s) = .ok (v, e)) (he : skipSpace e = '}' :: r) :
    members depth (fuel + 1) (writeString asciiOnly name ++ ':' :: s) = .ok ([(name, v)], r) := by
  have hname : writeString asciiOnly name ++ ':' :: s =
      '"' :: (name.flatMap (stringChar asciiOnly) ++ '"' :: ':' :: s) := by
    simp [writeString]
  have hcolon : skipSpace (':' :: s) = ':' :: s := rfl
  rw [hname, members, stringBody_flatMap_stringChar]
  simp only [hcolon, hvalue, he]

/-- A member of an object with others after it. -/
theorem members_next (asciiOnly : Bool) {depth fuel : Nat} (name : Text) {s e r : Text} {v : Json}
    (hvalue : value depth fuel (skipSpace s) = .ok (v, e)) (he : skipSpace e = ',' :: r) :
    members depth (fuel + 1) (writeString asciiOnly name ++ ':' :: s) =
      (members depth fuel (skipSpace r)).map fun x => ((name, v) :: x.1, x.2) := by
  have hname : writeString asciiOnly name ++ ':' :: s =
      '"' :: (name.flatMap (stringChar asciiOnly) ++ '"' :: ':' :: s) := by
    simp [writeString]
  have hcolon : skipSpace (':' :: s) = ':' :: s := rfl
  rw [hname, members, stringBody_flatMap_stringChar]
  simp only [hcolon, hvalue, he]

/-- Members begin with the quote of a name. -/
theorem exists_writeMembers_cons (layout : Layout) (level : Nat) (m : Text × Json)
    (ms : List (Text × Json)) :
    ∃ rest, writeMembers layout level (m :: ms) = '"' :: rest := by
  obtain ⟨name, v⟩ := m
  cases ms with
  | nil => exact ⟨_, rfl⟩
  | cons m ms => exact ⟨_, rfl⟩

/-- An object that has members. -/
theorem value_brace {r : Text} (hr : ∀ t, skipSpace r ≠ '}' :: t) (depth fuel : Nat) :
    value (depth + 1) (fuel + 1) ('{' :: r) =
      (members depth fuel (skipSpace r)).map fun x => (ofMembers x.1, x.2) :=
  value.eq_8 fuel r depth hr

/-- The members of the stored form are read up to the closing brace. -/
theorem members_writeMembers_toJson (layout : Layout) (s : Selection) (depth : Nat) {fuel : Nat}
    (hfuel : s.names.length + 1 < fuel) {e r : Text} (he : skipSpace e = '}' :: r) :
    members (depth + 1) (fuel + 2)
        (writeMembers layout 1 [("mode".toList, .string s.mode),
          ("names".toList, .array (s.names.map string))] ++ e) =
      .ok ([("mode".toList, .string s.mode), ("names".toList, .array (s.names.map string))], r) := by
  have hlist : value (depth + 1) fuel (skipSpace
      (' ' :: (writeAt layout 1 (.array (s.names.map string)) ++ e))) =
      .ok (.array (s.names.map string), e) := by
    obtain ⟨rest, hrest⟩ := exists_writeAt_array layout 1 (s.names.map string)
    have hspace : skipSpace (' ' :: (writeAt layout 1 (.array (s.names.map string)) ++ e)) =
        writeAt layout 1 (.array (s.names.map string)) ++ e := by
      rw [hrest]
      rfl
    rw [hspace]
    exact value_writeAt_strings layout 1 depth hfuel e
  have hlast := members_last layout.asciiOnly "names".toList hlist he
  obtain ⟨after, hsep, hafter⟩ := exists_separator_append layout 1
    (writeString layout.asciiOnly "names".toList ++
      ':' :: ' ' :: (writeAt layout 1 (.array (s.names.map string)) ++ e))
  have hmode : value (depth + 1) (fuel + 1) (skipSpace
      (' ' :: (writeString layout.asciiOnly s.mode ++ ',' :: after))) =
      .ok (.string s.mode, ',' :: after) :=
    value_writeString layout.asciiOnly (depth + 1) fuel s.mode (',' :: after)
  have hfirst := members_next layout.asciiOnly "mode".toList hmode rfl
  rw [hafter, skipSpace_writeString, hlast] at hfirst
  have hform : writeMembers layout 1 [("mode".toList, .string s.mode),
      ("names".toList, .array (s.names.map string))] ++ e =
      writeString layout.asciiOnly "mode".toList ++
        ':' :: ' ' :: (writeString layout.asciiOnly s.mode ++ ',' :: after) := by
    rw [← hsep]
    generalize array (s.names.map string) = names
    rw [writeMembers_cons_cons, writeAt_string, writeMembers_singleton]
    simp only [List.append_assoc, List.cons_append]
  rw [hform, hfirst]
  rfl

/-- The stored form of a selection is read from its text. -/
theorem read_write_toJson (layout : Layout) (s : Selection) :
    read (write layout s.toJson) = .ok s.toJson := by
  let body := writeMembers layout 1 [("mode".toList, .string s.mode),
    ("names".toList, .array (s.names.map string))]
  have hwrite : write layout s.toJson =
      '{' :: (lineBreak layout 1 ++ (body ++ (lineBreak layout 0 ++ ['}']))) := by
    rw [write, Selection.toJson, writeAt_object_cons]
    simp only [List.append_assoc, List.cons_append, body]
  have hlength : s.names.length ≤ body.length := by
    have hlist := length_le_writeAt_strings layout 1 s.names
    show _ ≤ (writeMembers layout 1 [("mode".toList, .string s.mode),
      ("names".toList, .array (s.names.map string))]).length
    generalize array (s.names.map string) = names at hlist ⊢
    rw [writeMembers_cons_cons, writeMembers_singleton]
    simp only [List.length_append, List.length_cons]
    omega
  have hlong : body.length + 2 ≤ (write layout s.toJson).length := by
    rw [hwrite]
    simp only [List.length_append, List.length_cons]
    omega
  obtain ⟨fuel, hfuel⟩ : ∃ fuel, 2 * (write layout s.toJson).length + 2 = fuel + 3 :=
    ⟨2 * (write layout s.toJson).length - 1, by omega⟩
  have hmembers : members 979 (fuel + 2) (body ++ (lineBreak layout 0 ++ ['}'])) = _ :=
    members_writeMembers_toJson layout s 978 (by omega) (skipSpace_lineBreak layout 0 ['}'])
  obtain ⟨rest, hrest⟩ : ∃ rest, body = '"' :: rest := exists_writeMembers_cons layout 1 _ _
  have hopen : skipSpace (lineBreak layout 1 ++ (body ++ (lineBreak layout 0 ++ ['}']))) =
      body ++ (lineBreak layout 0 ++ ['}']) := by
    rw [skipSpace_lineBreak, hrest]
    rfl
  have hstart : skipSpace (write layout s.toJson) = write layout s.toJson := by
    rw [hwrite]
    rfl
  have hvalue : value maxDepth (fuel + 3) (write layout s.toJson) = .ok (s.toJson, []) := by
    rw [hwrite, maxDepth, value_brace _ 979 (fuel + 2), hopen, hmembers]
    · rfl
    · intro t ht
      rw [hopen, hrest] at ht
      exact absurd (List.cons.inj ht).1 (by decide)
  rw [read, hstart, hfuel, hvalue]
  rfl

/-! ## Characters -/

@[simp] theorem isPlainAscii_lineBreak (layout : Layout) (level : Nat) :
    (lineBreak layout level).IsPlainAscii := by
  unfold lineBreak
  split
  · exact Text.isPlainAscii_nil
  · next width _ =>
    have hspaces : Text.IsPlainAscii (List.replicate (width * level) ' ') := by
      intro c hc
      obtain rfl := List.eq_of_mem_replicate hc
      decide
    exact Text.isPlainAscii_cons.2 ⟨by decide, hspaces⟩

@[simp] theorem isPlainAscii_separator (layout : Layout) (level : Nat) :
    (separator layout level).IsPlainAscii := by
  unfold separator
  split
  · decide
  · exact Text.isPlainAscii_cons.2 ⟨by decide, isPlainAscii_lineBreak layout level⟩

/-- If characters outside ASCII are escaped, a list of texts is written in ASCII. -/
theorem isPlainAscii_writeAt_strings {layout : Layout} (hlayout : layout.asciiOnly = true)
    (level : Nat) (names : List Text) :
    (writeAt layout level (.array (names.map string))).IsPlainAscii := by
  have hitems : (writeItems layout (level + 1) (names.map string)).IsPlainAscii := by
    induction names with
    | nil => exact Text.isPlainAscii_nil
    | cons s names ih =>
      cases names with
      | nil =>
        rw [List.map_cons, List.map_nil, writeItems_singleton, writeAt_string, hlayout]
        exact isPlainAscii_writeString s
      | cons t names =>
        rw [List.map_cons] at ih
        rw [List.map_cons, List.map_cons, writeItems_cons_cons, writeAt_string, hlayout]
        simp [ih]
  cases names with
  | nil => exact (by decide : Text.IsPlainAscii ['[', ']'])
  | cons s names =>
    rw [List.map_cons] at hitems
    rw [List.map_cons, writeAt_array_cons]
    simp [hitems]

theorem isPlainAscii_write_toJson {layout : Layout} (hlayout : layout.asciiOnly = true)
    (s : Selection) : (write layout s.toJson).IsPlainAscii := by
  have hnames := isPlainAscii_writeAt_strings hlayout 1 s.names
  rw [write, Selection.toJson]
  generalize array (s.names.map string) = names at hnames ⊢
  rw [writeAt_object_cons, writeMembers_cons_cons, writeAt_string, writeMembers_singleton, hlayout]
  simp [hnames]

end Json

/-! ## The file -/

namespace Selection

/-- A canonical selection is the one of its stored form. -/
theorem ofJson_toJson {s : Selection} (hs : s.Canonical) : ofJson s.toJson = s := by
  cases s with
  | none => rfl
  | allFiles => rfl
  | profiles names =>
    have htexts : (names.map Json.string).map Json.toText = names := by
      rw [List.map_map]
      exact List.map_id names
    show ofNames ((names.map Json.string).map Json.toText) = _
    rw [htexts, hs.ofNames_eq]

end Selection

namespace SelectionStore

/-- **The stored selection is read back**: the bytes written for a canonical selection stand for
it. -/
theorem decode_encode {s : Selection} (hs : s.Canonical) :
    decode (Utf8.encode (encode s)) = .ok s := by
  have hplain : (encode s).IsPlainAscii := Json.isPlainAscii_write_toJson rfl s
  rw [decode, Utf8.decode_encode]
  dsimp only
  rw [Text.unifyNewlines_of_isPlainAscii hplain, encode, Json.read_write_toJson]
  dsimp only
  rw [Selection.ofJson_toJson hs]

end SelectionStore

end Bindery
