import Bindery.Proofs.Entries
import Bindery.Proofs.Ignore.Reading
import Mathlib

/-!
# Runs of loads

One memory serves all ignore files of a process, while the files are written, removed and replaced
in between.  As long as a time and a size tell the contents of a path apart, every load gives the
lines that the file has at that moment, be they read again or remembered.

A directory has a time and a size too, and may be taken for the file that it has replaced.
`IgnoreCache.load` compares them for directories as well as for files, which `IgnoreCache.lines`
does not; where contents can be told apart the two are the same.

* `IgnoreCache.Status`: what a look at a path finds.
* `IgnoreCache.Load.AgreesWith`: two moments at which a time and a size mean the same content.
* `IgnoreCache.Stems`: the invariant; what is remembered was the content of its path at some moment.
* `IgnoreCache.run_of_agreesWith`: all loads of a run.
-/

namespace Bindery.IgnoreCache

/-! ## One load -/

/-- What a look at a path finds.  The bytes are those of a file; nothing else has any. -/
structure Status where
  stamp : Stamp
  size : Nat
  bytes : Option (List UInt8)

/-- What a look at a node finds, where `time` is the time of a directory. -/
def Status.ofNode (time : Stamp) : Node → Status
  | .file bytes stamp => ⟨stamp, bytes.length, some bytes⟩
  | n => ⟨time, Host.sizeOf n, none⟩

/-- The lines that are remembered of a path for a time and a size. -/
def remembered? (c : IgnoreCache) (path : Text) (stamp : Stamp) (size : Nat) :
    Option (List Text) :=
  match c.snapshots.get? path with
  | some s => if s.stamp = stamp ∧ s.size = size then some s.lines else none
  | none => none

/-- Loads the lines of what is at a path, and remembers those that were read. -/
def loadStatus (c : IgnoreCache) (path : Text) :
    Except Fault Status → Except Fault (List Text) × IgnoreCache
  | .error (.file _) => (.ok [], ⟨c.snapshots.remove path⟩)
  | .error e => (.error e, c)
  | .ok s =>
    match c.remembered? path s.stamp s.size, s.bytes with
    | some lines, _ => (.ok lines, c)
    | none, some bytes =>
      (.ok (linesOf bytes), ⟨c.snapshots.put path ⟨s.stamp, s.size, linesOf bytes⟩⟩)
    | none, none => (.ok [], c)

/-- A load: the root, the name of its ignore file, and the host and the times of its directories at
the moment. -/
structure Load where
  host : Host
  times : Text → Stamp
  root : Text
  name : Text

namespace Load

variable (x y : Load)

/-- The path of the ignore file. -/
def path : Text := pathOf x.root x.name

/-- What a look at the ignore file finds. -/
def status : Except Fault Status := (x.host.node x.path).map (.ofNode (x.times x.path))

/-- The lines of the ignore file as it is; without a file there are none. -/
def lines : List Text :=
  match x.host.node x.path with
  | .ok (.file bytes _) => linesOf bytes
  | _ => []

/-- A time and a size that the path has at both moments mean the same content. -/
def AgreesWith : Prop :=
  x.path = y.path → ∀ s t, x.status = .ok s → y.status = .ok t →
    s.stamp = t.stamp → s.size = t.size → s.bytes = t.bytes

end Load

/-- The load of an ignore file, and what is remembered afterwards. -/
def load (c : IgnoreCache) (x : Load) : Except Fault (List Text) × IgnoreCache :=
  c.loadStatus x.path x.status

/-- The lines of an ignore file as `lines` gives them, and what is remembered afterwards. -/
def ask (c : IgnoreCache) (x : Load) : Except Fault (List Text) × IgnoreCache :=
  (c.lines x.host x.root x.name, c.refresh x.host x.root x.name)

/-- Loads one after the other. -/
def run (load : IgnoreCache → Load → Except Fault (List Text) × IgnoreCache) (c : IgnoreCache) :
    List Load → List (Except Fault (List Text)) × IgnoreCache
  | [] => ([], c)
  | x :: xs =>
    let (lines, c) := load c x
    let (rest, c) := run load c xs
    (lines :: rest, c)

variable {c : IgnoreCache} {x : Load} {all : List Load}

theorem remembered?_eq_some_iff {path : Text} {stamp : Stamp} {size : Nat} {lines : List Text} :
    c.remembered? path stamp size = some lines ↔
      c.snapshots.get? path = some ⟨stamp, size, lines⟩ := by
  rw [remembered?]
  cases c.snapshots.get? path with
  | none => exact iff_of_false nofun nofun
  | some s =>
    obtain ⟨time, length, old⟩ := s
    dsimp only
    split
    · next hsame =>
      obtain ⟨rfl, rfl⟩ := hsame
      rw [Option.some.injEq, Option.some.injEq, IgnoreSnapshot.mk.injEq]
      exact ⟨fun h => ⟨rfl, rfl, h⟩, fun h => h.2.2⟩
    · next hother =>
      refine iff_of_false nofun fun h => hother ?_
      obtain ⟨rfl, rfl, -⟩ := IgnoreSnapshot.mk.inj (Option.some.inj h)
      exact ⟨rfl, rfl⟩

theorem linesAt_eq (c : IgnoreCache) (path : Text) (bytes : List UInt8) (stamp : Stamp) :
    c.linesAt path bytes stamp =
      (c.remembered? path stamp bytes.length).getD (linesOf bytes) := by
  rw [linesAt, remembered?]
  cases c.snapshots.get? path with
  | none => rfl
  | some s =>
    dsimp only
    split <;> rfl

/-- Unless a directory is taken for a file, `lines` and `refresh` are the load. -/
theorem ask_eq_load (hdirectory : ∀ s, x.status = .ok s → s.bytes = none →
    c.remembered? x.path s.stamp s.size = none) : c.ask x = c.load x := by
  have hpath : pathOf x.root x.name = x.path := rfl
  rw [Load.status] at hdirectory
  rw [ask, lines, refresh, load, Load.status, hpath]
  cases hnode : x.host.node x.path with
  | error e => cases e <;> rfl
  | ok n =>
    rw [hnode] at hdirectory
    have hstatus : (Except.ok n : Except Fault Node).map (Status.ofNode (x.times x.path)) =
        .ok (Status.ofNode (x.times x.path) n) := rfl
    rw [hstatus, loadStatus]
    cases n with
    | file bytes stamp =>
      dsimp only [Status.ofNode]
      rw [linesAt_eq]
      cases hold : c.remembered? x.path stamp bytes.length with
      | none => rfl
      | some old =>
        -- What is put under the path is what is there already.
        rw [Option.getD_some, Entries.put_of_get?_eq_some (remembered?_eq_some_iff.1 hold)]
    | link target =>
      rw [hdirectory _ hstatus rfl]
      rfl
    | directory es =>
      rw [hdirectory _ hstatus rfl]
      rfl

/-! ## What is remembered -/

namespace Load

/-- What a load has to give: the lines of the file as it is, unless its path cannot be looked up. -/
def answer (x : Load) : Except Fault (List Text) :=
  if '\x00' ∈ x.path then .error .nullCharacter else .ok x.lines

/-- What a load has to give, by what a look at the path finds. -/
theorem answer_eq (x : Load) :
    x.answer = match x.status with
      | .ok s => .ok ((s.bytes.map linesOf).getD [])
      | .error (.file _) => .ok []
      | .error e => .error e := by
  by_cases hnull : '\x00' ∈ x.path
  · have hnode : x.host.node x.path = .error .nullCharacter :=
      Host.nodeAt_of_null x.host .target hnull
    rw [answer, if_pos hnull, status, hnode]
    rfl
  · rw [answer, if_neg hnull, status, lines]
    cases hnode : x.host.node x.path with
    | error e =>
      obtain ⟨cause, rfl⟩ := Host.exists_fileError hnull hnode
      rfl
    | ok n => cases n <;> rfl

end Load

/-- Whatever is remembered of a path was its content at one of the moments. -/
def Stems (all : List Load) (c : IgnoreCache) : Prop :=
  ∀ path s, c.snapshots.get? path = some s → ∃ y ∈ all, y.path = path ∧
    ∃ bytes, y.status = .ok ⟨s.stamp, s.size, some bytes⟩ ∧ s.lines = linesOf bytes

/-- The lines that are remembered for a time and a size are those of what is there now. -/
theorem Stems.remembered? (hc : Stems all c) (hagree : ∀ y ∈ all, y.AgreesWith x) {s : Status}
    (hs : x.status = .ok s) {lines : List Text}
    (hlines : c.remembered? x.path s.stamp s.size = some lines) :
    ∃ bytes, s.bytes = some bytes ∧ lines = linesOf bytes := by
  obtain ⟨y, hy, hpath, bytes, hstatus, hbytes⟩ := hc _ _ (remembered?_eq_some_iff.1 hlines)
  exact ⟨bytes, (hagree y hy hpath _ _ hstatus hs rfl rfl).symm, hbytes⟩

/-- A load gives the lines of the file as it is, and remembers no others. -/
theorem Stems.load (hc : Stems all c) (hx : x ∈ all) (hagree : ∀ y ∈ all, y.AgreesWith x) :
    (c.load x).1 = x.answer ∧ Stems all (c.load x).2 := by
  rw [Load.answer_eq, IgnoreCache.load]
  cases hstatus : x.status with
  | error e =>
    cases e with
    | file cause =>
      refine ⟨rfl, fun path s hs => hc path s ?_⟩
      rw [loadStatus, Entries.get?_remove] at hs
      split at hs
      · exact absurd hs nofun
      · exact hs
    | _ => exact ⟨rfl, hc⟩
  | ok s =>
    rw [loadStatus]
    dsimp only
    cases hold : c.remembered? x.path s.stamp s.size with
    | some lines =>
      obtain ⟨bytes, hbytes, rfl⟩ := hc.remembered? hagree hstatus hold
      rw [hbytes]
      exact ⟨rfl, hc⟩
    | none =>
      cases hbytes : s.bytes with
      | none => exact ⟨rfl, hc⟩
      | some bytes =>
        refine ⟨rfl, fun path t ht => ?_⟩
        dsimp only at ht
        rw [Entries.get?_put] at ht
        split at ht
        · next hpath =>
          obtain rfl := Option.some.inj ht
          exact ⟨x, hx, hpath, bytes, by rw [hstatus, ← hbytes], rfl⟩
        · exact hc path t ht

/-- Where contents can be told apart, no directory is taken for a file. -/
theorem Stems.ask_eq_load (hc : Stems all c) (hagree : ∀ y ∈ all, y.AgreesWith x) :
    c.ask x = c.load x := by
  refine IgnoreCache.ask_eq_load fun s hs hnone => ?_
  rw [Option.eq_none_iff_forall_ne_some]
  intro lines hlines
  obtain ⟨bytes, hbytes, -⟩ := hc.remembered? hagree hs hlines
  exact absurd (hnone.symm.trans hbytes) nofun

/-! ## Runs -/

theorem Stems.run (hc : Stems all c) {loads : List Load} (hloads : loads ⊆ all)
    (hagree : ∀ x ∈ all, ∀ y ∈ all, x.AgreesWith y) :
    (IgnoreCache.run IgnoreCache.load c loads).1 = loads.map Load.answer ∧
      IgnoreCache.run ask c loads = IgnoreCache.run IgnoreCache.load c loads := by
  induction loads generalizing c with
  | nil => exact ⟨rfl, rfl⟩
  | cons x loads ih =>
    obtain ⟨hx, hloads⟩ := List.cons_subset.1 hloads
    have hpast : ∀ y ∈ all, y.AgreesWith x := fun y hy => hagree y hy x hx
    obtain ⟨hanswer, hnext⟩ := hc.load hx hpast
    obtain ⟨hrest, hask⟩ := ih hnext hloads
    rw [IgnoreCache.run, IgnoreCache.run, hc.ask_eq_load hpast, List.map_cons, ← hanswer, ← hrest]
    dsimp only
    rw [hask]
    exact ⟨rfl, rfl⟩

end Bindery.IgnoreCache
