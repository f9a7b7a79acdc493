import Bindery.Path.Parsed
import Bindery.Proofs.Path.Resolved

/-!
# The text of a path in parts

The names of a path in parts can be read off its text, but for what stands in the place of no names.

* `Parsed.IsProper`: what `Parsed.ofText` makes, and `Parsed.child` keeps.
* `Parsed.isAbsolute_toText`, `Parsed.splitOn_toText`.
-/

namespace Bindery.Path.Parsed

/-- Names without slashes, behind the slashes that a path may begin with. -/
structure IsProper (p : Parsed) : Prop where
  root : p.root = [] ∨ IsFront p.root
  names : ∀ n ∈ p.names, n ≠ [] ∧ '/' ∉ n

/-- The path of a name in the directory at a path. -/
def child (p : Parsed) (name : Text) : Parsed :=
  ⟨p.root, p.names ++ [name]⟩

theorem isProper_ofText (text : Text) : (ofText text).IsProper where
  root := by
    cases h : Path.isAbsolute text with
    | true => exact Or.inr (isFront_rootOf h)
    | false => exact Or.inl (rootOf_eq_nil h)
  names n hn := by
    have hpart : n ∈ components text := List.mem_of_mem_filter hn
    obtain ⟨hsplit, hne⟩ := List.mem_filter.1 hpart
    exact ⟨by simpa using hne, Text.not_mem_of_mem_splitOn hsplit⟩

/-- The path of names has them as its parts. -/
theorem toText_ofText_ofNames {names : List Text} (hnames : ∀ n ∈ names, IsName n) :
    (ofText (ofNames ['/'] names)).toText = ofNames ['/'] names := by
  have hkept : names.filter (· != ['.']) = names :=
    List.filter_eq_self.2 fun n hn => by simpa using (hnames n hn).ne_here
  rw [ofText, rootOf_ofNames (Or.inl rfl) hnames, components_ofNames (Or.inl rfl) hnames,
    hkept]
  rfl

variable {p : Parsed}

theorem IsProper.child (hp : p.IsProper) {name : Text} (hname : name ≠ [] ∧ '/' ∉ name) :
    (p.child name).IsProper :=
  ⟨hp.root, List.forall_mem_append.2 ⟨hp.names, List.forall_mem_singleton.2 hname⟩⟩

@[simp] theorem isAbsolute_child (name : Text) : (p.child name).isAbsolute = p.isAbsolute := rfl

theorem toText_ne_nil (p : Parsed) : p.toText ≠ [] := by
  rw [toText]
  split
  · exact nofun
  · next h => exact h

theorem isAbsolute_toText (hp : p.IsProper) : Path.isAbsolute p.toText = p.isAbsolute := by
  rcases hp.root with hroot | hroot
  · have hrel : Path.isAbsolute (List.intercalate ['/'] p.names) = false :=
      isAbsolute_intercalate_of_ne_nil hp.names
    rw [isAbsolute, toText, hroot, List.nil_append]
    split
    · rfl
    · exact hrel
  · have habs : p.isAbsolute = true := by
      rw [isAbsolute]
      rcases hroot with h | h <;> rw [h] <;> rfl
    have htext := isAbsolute_ofNames hroot p.names
    rw [habs, toText]
    split
    · next h => exact absurd h (ofNames_ne_nil hroot p.names)
    · exact htext

/-- The parts of the text are the names, behind nothing for each slash in front. -/
theorem splitOn_toText (hp : p.IsProper) (hne : p.names ≠ []) :
    p.toText.splitOn '/' = p.root.map (fun _ => []) ++ p.names := by
  have hslash : ∀ n ∈ p.names, '/' ∉ n := fun n hn => (hp.names n hn).2
  have htext : p.toText = p.root ++ List.intercalate ['/'] p.names := by
    rw [toText]
    split
    · next h =>
      obtain ⟨n, names, hnames⟩ := List.exists_cons_of_ne_nil hne
      have hn : n ≠ [] := (hp.names n (hnames ▸ List.mem_cons_self)).1
      obtain ⟨c, hc⟩ := List.exists_mem_of_ne_nil n hn
      have hmem := Text.mem_intercalate_of_mem '/' (hnames ▸ List.mem_cons_self) hc
      rw [(List.append_eq_nil_iff.1 h).2] at hmem
      cases hmem
    · rfl
  rcases hp.root with hroot | hroot
  · rw [htext, hroot]
    exact List.splitOn_intercalate '/' hslash hne
  · rw [htext]
    exact splitOn_ofNames hroot hne hslash

/-- Without names, all parts of the text stand for nothing. -/
theorem part_eq_of_names_eq_nil (hp : p.IsProper) (hnames : p.names = []) :
    ∀ part ∈ p.toText.splitOn '/', part = [] ∨ part = ['.'] := by
  rw [toText, hnames, List.intercalate_nil, List.append_nil]
  rcases hp.root with hroot | hroot | hroot <;> rw [hroot] <;> decide

end Bindery.Path.Parsed
