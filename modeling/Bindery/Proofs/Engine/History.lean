import Bindery.Engine.Basic
import Bindery.Proofs.Profile.Keyed
import Bindery.Proofs.Profile.Reading

/-!
# Histories of engines

What happens to an engine, call by call, while the files change in between.  A history tells it
without the engine: which roots were listed, which profile files were taken as the profiles of their
roots and which roots lost their profiles.  Its reading, `History.Current`, is what the profiles of
a root ought to be: those of the text taken last, if they have not been dropped since.

* `Config.find` is what the profile file of a root is found to be.
* `Call.perform` is what a call makes of an engine, `Call.record` what it adds to a history.
* `History.registry` holds the profiles that a history says are current; `scoped?_registry_iff` and
  `get?_registry_iff` read it.
-/

namespace Bindery

/-- What the profile file of a root is found to be. -/
inductive Config
  | missing
  | text (content : Text)
  /-- There is a file, but it cannot be read or decoded. -/
  | unreadable (f : Fault)
  /-- The file system does not let the program look. -/
  | fault (f : Fault)

/-- Looks for the profile file of a root, and reads it. -/
def Config.find (settings : Settings) (h : Host) (root : Text) : Config :=
  match Roots.hasConfig h root settings.configFileName with
  | .error f => .fault f
  | .ok false => .missing
  | .ok true =>
    match Profile.readFile h (Roots.configPath root settings.configFileName) with
    | .ok content => .text content
    | .error (.unreadable path reason) => .unreadable (.unreadable path reason)
    | .error f => .fault f

/-- A profile file that is no text is unreadable. -/
theorem Config.find_of_undecodable {settings : Settings} {h : Host} {root : Text}
    {bytes : List UInt8}
    (hfile : Roots.hasConfig h root settings.configFileName = .ok true)
    (hbytes : h.readBytes (Path.Parsed.ofText
      (Roots.configPath root settings.configFileName)).toText = .ok bytes)
    (hdecode : (Utf8.decode bytes).isOk = false) :
    ∃ f, Config.find settings h root = .unreadable f := by
  cases hd : Utf8.decode bytes with
  | ok content =>
    rw [hd] at hdecode
    exact absurd hdecode nofun
  | error f =>
    simp only [Config.find, hfile, Profile.readFile, hbytes, hd]
    exact ⟨_, rfl⟩

/-! ## Events -/

/-- What can happen to a root. -/
inductive Event
  /-- The root is listed. -/
  | added (root : Text)
  /-- The root is no longer listed. -/
  | removed (root : Text)
  /-- The profiles in a text become those of the root. -/
  | parsed (root text : Text)
  /-- The root is no longer taken for loaded, and keeps its profiles. -/
  | reopened (root : Text)
  /-- The profiles of the root are dropped. -/
  | dropped (root : Text)
  deriving DecidableEq, Repr

/-- The root that gets profiles, with their text. -/
def Event.parse? : Event → Option (Text × Text)
  | parsed root text => some (root, text)
  | _ => none

/-- Whether the profiles that a root had are gone. -/
def Event.ends : Event → Text → Bool
  | parsed r _, root => r == root
  | dropped r, root => r == root
  | _, _ => false

@[simp] theorem Event.parse?_eq_some_iff {ev : Event} {root text : Text} :
    ev.parse? = some (root, text) ↔ ev = .parsed root text := by
  cases ev <;> simp [Event.parse?]

@[simp] theorem Event.ends_parsed (r text root : Text) :
    (Event.parsed r text).ends root = (r == root) := rfl

/-- What has happened so far, the newest event first. -/
abbrev History := List Event

namespace History

/-- The roots that are listed. -/
def roots : History → List Text
  | [] => []
  | .added root :: hist => if (roots hist).contains root then roots hist else roots hist ++ [root]
  | .removed root :: hist => (roots hist).erase root
  | _ :: hist => roots hist

/-- Whether a root has been loaded and neither reopened nor dropped since. -/
def loaded : History → Text → Bool
  | [], _ => false
  | .parsed r _ :: hist, root => r == root || loaded hist root
  | .reopened r :: hist, root => r != root && loaded hist root
  | .dropped r :: hist, root => r != root && loaded hist root
  | _ :: hist, root => loaded hist root

/-- The profiles of a root are those in a text: it was parsed before the events in `newer`, and
they neither replace the profiles nor drop them. -/
def Current (hist : History) (newer : List Event) (root text : Text) : Prop :=
  ∃ older, hist = newer ++ .parsed root text :: older ∧ ∀ ev ∈ newer, ev.ends root = false

/-- Of the current profiles of which `f` makes something, those that were parsed last are those of
which it makes `b`. -/
def Latest {β : Type} (hist : History) (f : Text × Text → Option β) (b : β) : Prop :=
  ∃ newer root text, Current hist newer root text ∧ f (root, text) = some b ∧
    ∀ newer' root' text', Current hist newer' root' text' → newer'.length < newer.length →
      f (root', text') = none

/-- What a load of a path adds to a history.  A load that a fault cuts short gives `error`, with
the history up to there. -/
def visit (settings : Settings) (h : Host) (hist : History) (path : Text) :
    Except History History :=
  match Roots.normalize h path with
  | .error _ => .error hist
  | .ok root =>
    if loaded hist root then .ok (.added root :: hist)
    else
      match Config.find settings h root with
      | .missing => .ok (.added root :: hist)
      | .text content => .ok (.parsed root content :: .added root :: hist)
      | .unreadable _ => .ok (.added root :: hist)
      | .fault _ => .error (.added root :: hist)

/-- What a load of all roots adds to a history.  Roots that are listed on the way are visited last;
they are normal forms, and no further ones come from them. -/
def visitAll (settings : Settings) (h : Host) (hist : History) : Except History History :=
  ((roots hist).foldlM (visit settings h) hist).bind fun next =>
    ((roots next).drop (roots hist).length).foldlM (visit settings h) next

/-- The history up to the end of a call or up to the fault that cuts it short. -/
def last : Except History History → History
  | .ok hist => hist
  | .error hist => hist

/-- What a call on one root adds to a history. -/
def onRoot (h : Host) (path : Text) (hist : History) (events : Text → List Event) : History :=
  match Roots.normalize h path with
  | .error _ => hist
  | .ok root => events root ++ hist

end History

/-! ## Calls -/

/-- The calls that change an engine. -/
inductive Call
  | addRoot (path : Text)
  | removeRoot (path : Text)
  | loadRoot (path : Text)
  | loadAll
  | invalidateRoot (path : Text)
  | reloadRoot (path : Text)
  deriving DecidableEq, Repr

namespace Call

/-- The paths that a call brings into their normal form, for the roots that are listed. -/
def paths (roots : List Text) : Call → List Text
  | addRoot path => [path]
  | removeRoot path => [path]
  | loadRoot path => [path]
  | loadAll => roots
  | invalidateRoot path => [path]
  | reloadRoot path => [path]

/-- What a call makes of an engine.  A fault leaves what was done before it. -/
def perform (h : Host) (e : Engine) : Call → Engine
  | addRoot path => ((e.addRoot h path).map Prod.fst).toOption.getD e
  | removeRoot path => (e.removeRoot h path).toOption.getD e
  | loadRoot path => (e.loadRoot h path).1
  | loadAll => (e.loadAll h).1
  | invalidateRoot path => (e.invalidateRoot h path).toOption.getD e
  | reloadRoot path => (e.reloadRoot h path).1

/-- What a reload of a root adds to a history. -/
def reloadEvents (settings : Settings) (h : Host) (root : Text) : List Event :=
  match Config.find settings h root with
  | .missing => [.dropped root, .reopened root, .added root]
  | .text content => [.parsed root content, .reopened root, .added root]
  | .unreadable _ => [.reopened root, .added root]
  | .fault _ => [.reopened root, .added root]

/-- What a call adds to a history. -/
def record (settings : Settings) (h : Host) (hist : History) : Call → History
  | addRoot path => hist.onRoot h path fun root => [.added root]
  | removeRoot path => hist.onRoot h path fun root => [.removed root, .dropped root]
  | loadRoot path => History.last (hist.visit settings h path)
  | loadAll => History.last (hist.visitAll settings h)
  | invalidateRoot path => hist.onRoot h path fun root => [.dropped root]
  | reloadRoot path => hist.onRoot h path (reloadEvents settings h)

end Call

/-! ## The reading of a history -/

namespace History

variable {ev : Event} {hist : History} {newer : List Event} {root text : Text}

/-- The roots with profiles and the texts of these, the one that was parsed last first. -/
def current : History → List (Text × Text)
  | [] => []
  | ev :: hist => ev.parse?.toList ++ (current hist).filter fun c => !ev.ends c.1

theorem not_current_nil : ¬ Current [] newer root text := by
  rintro ⟨older, heq, -⟩
  exact absurd heq.symm (List.append_ne_nil_of_right_ne_nil newer (List.cons_ne_nil _ older))

/-- After one more event the profiles of a root are those that it brings, or else the former ones
if it does not end them. -/
theorem current_cons_iff : Current (ev :: hist) newer root text ↔
    newer = [] ∧ ev = .parsed root text ∨
      ∃ rest, newer = ev :: rest ∧ ev.ends root = false ∧ Current hist rest root text := by
  constructor
  · rintro ⟨older, heq, hends⟩
    cases newer with
    | nil =>
      rw [List.nil_append, List.cons.injEq] at heq
      exact Or.inl ⟨rfl, heq.1⟩
    | cons first rest =>
      rw [List.cons_append, List.cons.injEq] at heq
      obtain ⟨rfl, hhist⟩ := heq
      have hrest : ∀ ev' ∈ rest, ev'.ends root = false :=
        fun ev' hev => hends ev' (List.mem_cons_of_mem ev hev)
      exact Or.inr ⟨rest, rfl, hends ev List.mem_cons_self, older, hhist, hrest⟩
  · rintro (⟨rfl, rfl⟩ | ⟨rest, rfl, hev, older, rfl, hends⟩)
    · exact ⟨hist, rfl, fun _ hev => absurd hev List.not_mem_nil⟩
    · refine ⟨older, rfl, fun ev' hev' => ?_⟩
      rcases List.mem_cons.1 hev' with rfl | hev'
      · exact hev
      · exact hends ev' hev'

/-- No root has profiles from two texts. -/
theorem nodup_current (hist : History) : ((current hist).map Prod.fst).Nodup := by
  induction hist with
  | nil => exact List.nodup_nil
  | cons ev hist ih =>
    have hrest : (((current hist).filter fun c => !ev.ends c.1).map Prod.fst).Nodup :=
      ih.sublist (List.filter_sublist.map Prod.fst)
    rw [current]
    cases hev : ev.parse? with
    | none => exact hrest
    | some c =>
      rw [Event.parse?_eq_some_iff] at hev
      -- The event ends what its root had before.
      refine List.nodup_cons.2 ⟨fun hmem => ?_, hrest⟩
      obtain ⟨d, hd, hdc⟩ := List.mem_map.1 hmem
      have hends : (!ev.ends d.1) = true := (List.mem_filter.1 hd).2
      rw [hev, Event.ends_parsed, hdc] at hends
      simp at hends

/-- What a later event brings is the latest, if something is made of it. -/
theorem latest_cons_of_some {β : Type} {f : Text × Text → Option β} {b b' : β}
    (hf : f (root, text) = some b') : Latest (.parsed root text :: hist) f b ↔ b' = b := by
  have hnow : Current (.parsed root text :: hist) [] root text :=
    current_cons_iff.2 (Or.inl ⟨rfl, rfl⟩)
  constructor
  · rintro ⟨newer, r, t, hcur, hb, hlatest⟩
    cases newer with
    | nil =>
      rcases current_cons_iff.1 hcur with ⟨-, hev⟩ | ⟨rest, hnil, -⟩
      · obtain ⟨rfl, rfl⟩ := Event.parsed.inj hev
        rw [hf] at hb
        exact Option.some.inj hb
      · exact absurd hnil nofun
    | cons first rest =>
      -- What the event brings is later than anything before it.
      have hnone := hlatest [] root text hnow (Nat.zero_lt_succ _)
      rw [hf] at hnone
      exact absurd hnone nofun
  · rintro rfl
    exact ⟨[], root, text, hnow, hf, fun _ _ _ _ hlt => absurd hlt (Nat.not_lt_zero _)⟩

/-- An event of which nothing is made leaves the latest of what it does not end. -/
theorem latest_cons_of_none {β : Type} {f : Text × Text → Option β} {b : β}
    (hf : ∀ root text, ev = .parsed root text → f (root, text) = none) :
    Latest (ev :: hist) f b ↔ Latest hist (fun c => if !ev.ends c.1 then f c else none) b := by
  constructor
  · rintro ⟨newer, root, text, hcur, hb, hlatest⟩
    rcases current_cons_iff.1 hcur with ⟨-, hev⟩ | ⟨rest, rfl, hev, hrest⟩
    · rw [hf root text hev] at hb
      exact absurd hb nofun
    · refine ⟨rest, root, text, hrest, by simpa [hev] using hb, fun newer' r t hcur' hlt => ?_⟩
      by_cases hends : ev.ends r = true
      · simp [hends]
      · rw [Bool.not_eq_true] at hends
        have hcons := current_cons_iff.2 (Or.inr ⟨newer', rfl, hends, hcur'⟩)
        simpa [hends] using hlatest (ev :: newer') r t hcons (Nat.succ_lt_succ hlt)
  · rintro ⟨newer, root, text, hcur, hb, hlatest⟩
    have hends : ev.ends root = false := by
      cases h : ev.ends root with
      | false => rfl
      | true => simp [h] at hb
    refine ⟨ev :: newer, root, text, current_cons_iff.2 (Or.inr ⟨newer, rfl, hends, hcur⟩),
      by simpa [hends] using hb, fun newer' r t hcur' hlt => ?_⟩
    rcases current_cons_iff.1 hcur' with ⟨-, hev⟩ | ⟨rest, rfl, hev, hrest⟩
    · exact hf r t hev
    · simpa [hev] using hlatest rest r t hrest (Nat.lt_of_succ_lt_succ hlt)

/-- The latest is what a search through the current profiles comes to first. -/
theorem findSome?_current_iff {β : Type} (f : Text × Text → Option β) (b : β) :
    (current hist).findSome? f = some b ↔ Latest hist f b := by
  induction hist generalizing f with
  | nil => exact ⟨fun h => absurd h nofun, fun ⟨_, _, _, h, _⟩ => absurd h not_current_nil⟩
  | cons ev hist ih =>
    -- What the event ends is left out of the search behind it; hence the induction for every `f`.
    have hfilter : ((current hist).filter fun c => !ev.ends c.1).findSome? f =
        (current hist).findSome? fun c => if !ev.ends c.1 then f c else none := by
      rw [← List.head?_filterMap, List.filterMap_filter, List.head?_filterMap]
    rw [current, List.findSome?_append, hfilter]
    cases hev : ev.parse? with
    | none =>
      rw [latest_cons_of_none fun root text h => by simp [h, Event.parse?] at hev, ← ih]
      rfl
    | some c =>
      obtain ⟨root, text⟩ := c
      rw [Event.parse?_eq_some_iff] at hev
      rw [Option.toList_some, List.findSome?_singleton]
      cases hf : f (root, text) with
      | none =>
        rw [latest_cons_of_none fun r t h => by rw [hev] at h; cases h; exact hf, ← ih]
        rfl
      | some b' =>
        rw [hev, latest_cons_of_some hf, Option.some_or, Option.some.injEq]

/-! ## The registry of a history -/

/-- The registry with the current profiles of the roots, in the order in which they were parsed. -/
def registry (hist : History) : Registry :=
  ⟨(current hist).reverse.map fun c => (c.1, Profile.readText c.1 c.2)⟩

/-- An event that neither brings nor ends profiles leaves the registry. -/
theorem registry_cons (hparse : ev.parse? = none) (hends : ∀ root, ev.ends root = false) :
    registry (ev :: hist) = registry hist := by
  simp [registry, current, hparse, hends]

theorem remove_byRoot_registry (hist : History) (root : Text) :
    (registry hist).byRoot.remove root =
      ((current hist).filter fun c => !(root == c.1)).reverse.map
        fun c => (c.1, Profile.readText c.1 c.2) := by
  rw [registry, Entries.remove, List.filter_map, List.filter_reverse]
  congr 2
  refine List.filter_congr fun c _ => ?_
  rw [Function.comp_apply, bne, BEq.comm]

theorem registry_dropped (hist : History) (root : Text) :
    registry (.dropped root :: hist) = (registry hist).dropRoot root := by
  rw [Registry.dropRoot, remove_byRoot_registry]
  rfl

theorem registry_parsed (hist : History) (root text : Text) :
    registry (.parsed root text :: hist) =
      (registry hist).replaceRoot root (Profile.readText root text) := by
  -- The history has the newest first and the registry the newest last.
  rw [Registry.replaceRoot, remove_byRoot_registry, registry, current]
  simp [Event.parse?]

/-- The registry of a history is keyed. -/
theorem keyed_registry (hist : History) : (registry hist).Keyed where
  roots_nodup := by
    have hnames : (registry hist).byRoot.names = ((current hist).map Prod.fst).reverse := by
      simp [registry, Entries.names, Function.comp_def]
    rw [hnames]
    exact List.nodup_reverse.2 (nodup_current hist)
  names_nodup e he := by
    obtain ⟨c, -, rfl⟩ := List.mem_map.1 he
    exact (Profile.sound_readText c.1 c.2).1
  key_eq e he := by
    obtain ⟨c, -, rfl⟩ := List.mem_map.1 he
    exact (Profile.sound_readText c.1 c.2).2

/-- By name a profile is found in the latest current text that declares it. -/
theorem get?_registry_iff {name : Text} {p : Profile} :
    (registry hist).get? name = some p ↔
      Latest hist (fun c => (Profile.readText c.1 c.2).get? name) p := by
  rw [Registry.get?_eq_findSome? (keyed_registry hist).names_nodup, registry, ← List.map_reverse,
    List.reverse_reverse, List.findSome?_map, ← findSome?_current_iff]
  rfl

end History

end Bindery
