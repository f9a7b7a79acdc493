import Bindery.Profile.Reader
import Bindery.Proofs.Entries

/-!
# What profile files declare

Whatever the text of a profile file is, the profiles read from it are those of its root, each stands
under its own name, and no name comes twice.

* `Scan.isRead`: the lines that are neither blank nor comments; what each is read as follows.
* `Scan.Sound`: what every line keeps, and `Profile.sound_readText` for a whole text.
-/

namespace Bindery

namespace Profile

/-- A pattern more leaves a profile what it is. -/
@[simp] theorem key_addPattern (p : Profile) (pattern : Text) :
    (p.addPattern pattern).key = p.key := by
  unfold addPattern
  split
  · rfl
  · dsimp only
    split <;> rfl
  · rfl

/-- Nor do several patterns make it another one. -/
theorem key_foldl_addPattern (patterns : List Text) (p : Profile) :
    (patterns.foldl addPattern p).key = p.key := by
  induction patterns generalizing p with
  | nil => rfl
  | cons pattern patterns ih => rw [List.foldl_cons, ih, key_addPattern]

end Profile

namespace Scan

/-! ## What a line is read as -/

/-- Whether a line is read: it is neither blank nor a comment. -/
def isRead (line : Text) : Bool :=
  !(line.isEmpty || line.head? == some '#')

theorem isRead_iff {line : Text} : isRead line = true ↔ line ≠ [] ∧ line.head? ≠ some '#' := by
  simp [isRead]

section Lines

variable {root line : Text}

theorem feed_of_not_isRead (hline : isRead line = false) (s : Scan) : feed root s line = s :=
  if_pos (by rwa [isRead, Bool.not_eq_false'] at hline)

variable (hline : isRead line = true)
include hline

/-- A header opens its block. -/
theorem feed_of_read? {h : Header} (hread : Header.read? line = some h) (s : Scan) :
    feed root s line = s.openBlock root h := by
  rw [feed, if_neg (by simpa [isRead] using hline), hread]

theorem feed_of_read?_eq_none (hread : Header.read? line = none) (s : Scan) :
    feed root s line = s.bodyLine line := by
  rw [feed, if_neg (by simpa [isRead] using hline), hread]

/-- A line in a block that is nothing else is a pattern. -/
theorem feed_pattern (hread : Header.read? line = none) (hclose : line ≠ ['}'])
    (es : Entries Profile) (p : Profile) :
    feed root ⟨es, some p⟩ line = ⟨es, some (p.addPattern line)⟩ := by
  rw [feed_of_read?_eq_none hline hread]
  exact if_neg hclose

end Lines

/-- A header with nothing behind its brace opens an empty block. -/
theorem openBlock_of_body_eq_nil {h : Header} (hbody : h.body = []) (s : Scan) (root : Text) :
    s.openBlock root h = ⟨s.commit.profiles, some (h.opened root)⟩ := by
  have hcloses : h.closes = false := by
    rw [Header.closes, hbody]
    rfl
  have hpatterns : h.patterns = [] := by
    rw [Header.patterns, hcloses, hbody]
    rfl
  rw [openBlock, hpatterns, hcloses]
  rfl

/-! ## Line by line -/

/-- Between two lines, all profiles are those of the root, each under its own name. -/
structure Sound (root : Text) (s : Scan) : Prop where
  nodup : s.profiles.names.Nodup
  key_eq : ∀ f ∈ s.profiles, f.2.key = (root, f.1)
  block_root : ∀ p ∈ s.block, p.root = root

variable {root : Text} {s : Scan}

theorem sound_start (root : Text) : start.Sound root :=
  ⟨List.nodup_nil, fun _ hf => absurd hf List.not_mem_nil, fun _ hp => absurd hp nofun⟩

/-- The end of a block puts its profile under its own name. -/
theorem Sound.commit (hs : s.Sound root) : s.commit.Sound root := by
  unfold Scan.commit
  split
  · exact hs
  · next p hblock =>
    -- A later block of the same name takes the place of the earlier one.
    have hroot : p.root = root := hs.block_root p hblock
    refine ⟨Entries.nodup_names_put hs.nodup p.name p, fun f hf => ?_, fun _ hp => absurd hp nofun⟩
    rcases Entries.mem_of_mem_put hf with rfl | hf
    · rw [Profile.key, hroot]
    · exact hs.key_eq f hf

/-- A header opens a block of the root, with the patterns that stand on its line. -/
theorem Sound.filled (hs : s.Sound root) (h : Header) :
    Sound root ⟨s.commit.profiles, some (h.patterns.foldl Profile.addPattern (h.opened root))⟩ := by
  have hblock : (h.patterns.foldl Profile.addPattern (h.opened root)).root = root :=
    congrArg Prod.fst (Profile.key_foldl_addPattern h.patterns (h.opened root))
  exact ⟨hs.commit.nodup, hs.commit.key_eq, fun p hp => Option.some.inj hp ▸ hblock⟩

theorem Sound.openBlock (hs : s.Sound root) (h : Header) : (s.openBlock root h).Sound root := by
  rw [Scan.openBlock]
  split
  · exact (hs.filled h).commit
  · exact hs.filled h

/-- A line in a block ends it or adds a pattern to it. -/
theorem Sound.bodyLine (hs : s.Sound root) (line : Text) : (s.bodyLine line).Sound root := by
  unfold Scan.bodyLine
  split
  · exact hs
  · next p hblock =>
    split
    · exact hs.commit
    · refine ⟨hs.nodup, hs.key_eq, fun q hq => ?_⟩
      rw [← Option.some.inj hq]
      exact (congrArg Prod.fst (p.key_addPattern line)).trans (hs.block_root p hblock)

theorem Sound.feed (hs : s.Sound root) (line : Text) : (Scan.feed root s line).Sound root := by
  unfold Scan.feed
  split
  · exact hs
  · split
    · exact hs.openBlock _
    · exact hs.bodyLine line

theorem Sound.foldl_feed (hs : s.Sound root) (lines : List Text) :
    (lines.foldl (Scan.feed root) s).Sound root := by
  induction lines generalizing s with
  | nil => exact hs
  | cons line lines ih => exact ih (hs.feed line)

end Scan

namespace Profile

/-- The profiles that a text declares for a root, when all of it is read. -/
theorem sound_readText (root text : Text) :
    (readText root text).names.Nodup ∧ ∀ f ∈ readText root text, f.2.key = (root, f.1) := by
  have hend := ((Scan.sound_start root).foldl_feed ((Text.lines text).map Text.trim)).commit
  exact ⟨hend.nodup, hend.key_eq⟩

end Profile

end Bindery
