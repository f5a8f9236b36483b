/-
Fjarr.Web.Tracks — `TrackRegistry` (`web/packages/core/src/tracks.ts`): the
manifest and the media tracks bound to its entries.

The browser's events name a mid, and what is bound is stored under a track
id. An event for a mid that no entry has waits (`pendingByMid`) for the
manifest that has one. A manifest unbinds the entries it removes and those
it gives another mid, and what is unbound is gone: an entry that takes over
a mid already received finds nothing waiting, and the browser has no reason
to fire again.

Of a media track nothing is read. `events` records the latest event of each
mid since the media was last detached. Ids and mids are distinct within a
manifest, so the order its entries are searched in makes no difference. The
registry's demand is in `Fjarr.Web.Selection`; streams, receivers, monitors
and the published snapshot are left out.
-/
import Fjarr.Lib.Maps
import Fjarr.Lib.Transition

namespace Fjarr.Web.Tracks

open Lib List Option

/-! ## The registry -/

structure ManifestEntry where
  trackId : String
  cap : String
  mid : Option String := none
  deriving DecidableEq, Repr

/-- The entries of an offer. -/
structure Manifest where
  entries : List ManifestEntry
  ids : (entries.map (·.trackId)).Nodup
  mids : (entries.filterMap (·.mid)).Nodup

structure Live (T : Type) where
  track : T
  mid : String
  deriving DecidableEq, Repr

structure Registry (T : Type) where
  manifest : Std.ExtTreeMap String ManifestEntry := ∅
  live : Std.ExtTreeMap String (Live T) := ∅
  pendingByMid : Std.ExtTreeMap String (Live T) := ∅
  manifestVersion : Option Nat := none

variable {T : Type}

namespace Registry

variable (r : Registry T)

def byMid (mid : String) : Option String :=
  (r.manifest.toList.find? fun e => e.2.mid = some mid).map (·.1)

def dropLive (id : String) : Registry T := { r with live := r.live.erase id }

def bindLive (id : String) (live : Live T) : Registry T :=
  { r with live := r.live.insert id live }

def stale (version : Option Nat) : Bool :=
  match version, r.manifestVersion with
  | some v, some applied => v < applied
  | _, _ => false

/-- A track that is no longer in the manifest. -/
def remove (id : String) : Registry T :=
  { r with manifest := r.manifest.erase id }.dropLive id

/-- An entry is put in the manifest, and unbound where its mid changed. -/
def remap (e : ManifestEntry) : Registry T :=
  let r' := { r with manifest := r.manifest.insert e.trackId e }
  if (r.manifest[e.trackId]?).any (·.mid ≠ e.mid) then r'.dropLive e.trackId else r'

/-- One entry of a manifest, bound to what waits for its mid. -/
def applyEntry (e : ManifestEntry) : Registry T :=
  match e.mid with
  | none => r.remap e
  | some mid =>
    match (r.remap e).live[e.trackId]?, r.pendingByMid[mid]? with
    | none, some pending =>
      { r.remap e with pendingByMid := r.pendingByMid.erase mid }.bindLive e.trackId pending
    | _, _ => r.remap e

/-- `applyManifest`. -/
def applyManifest (m : Manifest) (version : Option Nat) : Registry T :=
  if r.stale version then r
  else
    let r := { r with manifestVersion := version.or r.manifestVersion }
    let removed := r.manifest.keys.filter fun id => id ∉ m.entries.map (·.trackId)
    m.entries.foldl applyEntry (removed.foldl remove r)

/-- `attachTrackEvent`. -/
def attachTrackEvent (mid : Option String) (track : T) : Registry T :=
  match mid with
  | none => r
  | some mid =>
    match r.byMid mid with
    | none => { r with pendingByMid := r.pendingByMid.insert mid { track, mid } }
    | some id => r.bindLive id { track, mid }

/-- `detachMedia`. -/
def detachMedia : Registry T :=
  { r with live := ∅, pendingByMid := ∅, manifestVersion := none }

/-! ## One manifest -/

variable {id : String} {e : ManifestEntry}

theorem byMid_eq_some {r : Registry T} {mid : String} (h : r.byMid mid = some id) :
    ∃ e, r.manifest[id]? = some e ∧ e.mid = some mid := by
  obtain ⟨⟨id', e⟩, hfind, rfl⟩ := map_eq_some_iff.mp h
  refine ⟨e, ?_, by simpa using find?_some hfind⟩
  exact Std.ExtTreeMap.mem_toList_iff_getElem?_eq_some.mp (mem_of_find?_eq_some hfind)

theorem byMid_eq_none {r : Registry T} {mid : String} (h : r.byMid mid = none)
    (he : r.manifest[id]? = some e) : e.mid ≠ some mid := by
  have hnone := find?_eq_none.mp (map_eq_none_iff.mp h) (id, e)
    (Std.ExtTreeMap.mem_toList_iff_getElem?_eq_some.mpr he)
  simpa using hnone

/-- What is left bound of an entry whose mid may have changed. -/
def kept (e : ManifestEntry) : Option (Live T) :=
  if (r.manifest[e.trackId]?).any (·.mid ≠ e.mid) then none else r.live[e.trackId]?

/-- What an entry is bound to: what is left, or what waits for its mid. -/
def bound (e : ManifestEntry) : Option (Live T) :=
  (r.kept e).or (e.mid.bind fun mid => r.pendingByMid[mid]?)

section

variable (r : Registry T) (e : ManifestEntry)

theorem manifest_remap :
    (r.remap e).manifest = r.manifest.insert e.trackId e := by
  unfold remap
  split_ifs <;> rfl

theorem pending_remap :
    (r.remap e).pendingByMid = r.pendingByMid := by
  unfold remap
  split_ifs <;> rfl

theorem live_remap (id : String) :
    (r.remap e).live[id]? = if id = e.trackId then r.kept e else r.live[id]? := by
  unfold remap kept
  by_cases hid : id = e.trackId
  · rw [hid, if_pos rfl]
    split_ifs <;> simp [dropLive]
  · rw [if_neg hid]
    split_ifs <;> simp [dropLive, Maps.get?_erase, hid]

theorem manifest_applyEntry :
    (r.applyEntry e).manifest = r.manifest.insert e.trackId e := by
  unfold applyEntry
  split
  · exact manifest_remap r e
  · split <;> exact manifest_remap r e

theorem live_applyEntry (id : String) :
    (r.applyEntry e).live[id]? = if id = e.trackId then r.bound e else r.live[id]? := by
  unfold applyEntry bound
  cases hmid : e.mid with
  | none => simp [live_remap]
  | some mid =>
    dsimp only [bind_some]
    have hkept : (r.remap e).live[e.trackId]? = r.kept e := by rw [live_remap, if_pos rfl]
    rw [hkept]
    cases hkeep : r.kept e with
    | some l =>
      refine (live_remap r e id).trans ?_
      rw [hkeep, some_or]
    | none =>
      cases r.pendingByMid[mid]? with
      | none =>
        refine (live_remap r e id).trans ?_
        rw [hkeep, none_or]
      | some l =>
        simp only [bindLive, Maps.get?_insert, none_or]
        split_ifs with hid
        · rfl
        · rw [live_remap, if_neg hid]

theorem pending_applyEntry (mid : String) :
    (r.applyEntry e).pendingByMid[mid]? =
      if e.mid = some mid ∧ r.kept e = none then none else r.pendingByMid[mid]? := by
  unfold applyEntry
  cases hmid : e.mid with
  | none => simp [pending_remap]
  | some mid' =>
    dsimp only
    have hkept : (r.remap e).live[e.trackId]? = r.kept e := by rw [live_remap, if_pos rfl]
    rw [hkept]
    cases r.kept e with
    | some l => simp [pending_remap]
    | none =>
      cases hp : r.pendingByMid[mid']? with
      | none =>
        simp only [pending_remap, and_true, some.injEq]
        split_ifs with heq
        · rw [← heq, hp]
        · rfl
      | some l =>
        simp only [bindLive, Maps.get?_erase, and_true, some.injEq]
        simp [eq_comm]

end

section Others

variable {e e' : ManifestEntry} (hid : e'.trackId ≠ e.trackId)

include hid

theorem kept_applyEntry (r : Registry T) : (r.applyEntry e).kept e' = r.kept e' := by
  rw [kept, kept, manifest_applyEntry, Maps.get?_insert, if_neg hid, live_applyEntry, if_neg hid]

theorem bound_applyEntry (r : Registry T) (hmid : ∀ mid, e'.mid = some mid → e.mid ≠ some mid) :
    (r.applyEntry e).bound e' = r.bound e' := by
  rw [bound, bound, kept_applyEntry hid]
  congr 1
  cases hmid' : e'.mid with
  | none => rfl
  | some mid =>
    rw [bind_some, bind_some, pending_applyEntry,
      if_neg fun h => hmid mid hmid' h.1]

end Others

/-- The entries of a manifest, each taken by itself. -/
structure Distinct (es : List ManifestEntry) : Prop where
  ids : (es.map (·.trackId)).Nodup
  mids : (es.filterMap (·.mid)).Nodup

theorem Distinct.of_cons {es : List ManifestEntry} (h : Distinct (e :: es)) :
    Distinct es ∧ ∀ e' ∈ es, e'.trackId ≠ e.trackId ∧
      ∀ mid, e'.mid = some mid → e.mid ≠ some mid := by
  obtain ⟨hids, hmids⟩ := h
  rw [map_cons, nodup_cons] at hids
  refine ⟨⟨hids.2, hmids.sublist ((sublist_cons_self e es).filterMap _)⟩, fun e' he' =>
    ⟨fun heq => hids.1 (heq ▸ List.mem_map_of_mem he'), fun mid hmid' hmid => ?_⟩⟩
  rw [filterMap_cons_some hmid, nodup_cons] at hmids
  exact hmids.1 (mem_filterMap.mpr ⟨e', he', hmid'⟩)

section

variable (es : List ManifestEntry) (r : Registry T)

theorem manifest_foldl (hid : id ∉ es.map (·.trackId)) :
    (es.foldl applyEntry r).manifest[id]? = r.manifest[id]? := by
  induction es generalizing r with
  | nil => rfl
  | cons e es ih =>
    rw [map_cons, mem_cons, not_or] at hid
    rw [foldl_cons, ih _ hid.2, manifest_applyEntry, Maps.get?_insert, if_neg hid.1]

theorem live_foldl
    (hid : id ∉ es.map (·.trackId)) : (es.foldl applyEntry r).live[id]? = r.live[id]? := by
  induction es generalizing r with
  | nil => rfl
  | cons e es ih =>
    rw [map_cons, mem_cons, not_or] at hid
    rw [foldl_cons, ih _ hid.2, live_applyEntry, if_neg hid.1]

theorem pending_foldl (mid : String) :
    (es.foldl applyEntry r).pendingByMid[mid]? = none ∨
      (es.foldl applyEntry r).pendingByMid[mid]? = r.pendingByMid[mid]? := by
  induction es generalizing r with
  | nil => exact .inr rfl
  | cons e es ih =>
    rw [foldl_cons]
    obtain hnone | heq := ih (r.applyEntry e)
    · exact .inl hnone
    rw [heq, pending_applyEntry]
    split_ifs
    · exact .inl rfl
    · exact .inr rfl

end

/-- Each is in the manifest, bound by what was there before any of them. -/
theorem entry_foldl {es : List ManifestEntry} (h : Distinct es) (r : Registry T)
    (he : e ∈ es) :
    (es.foldl applyEntry r).manifest[e.trackId]? = some e ∧
      (es.foldl applyEntry r).live[e.trackId]? = r.bound e ∧
      ∀ mid, e.mid = some mid → r.kept e = none →
        (es.foldl applyEntry r).pendingByMid[mid]? = none := by
  induction es generalizing r with
  | nil => exact absurd he not_mem_nil
  | cons e₀ es ih =>
    obtain ⟨hrest, hne⟩ := h.of_cons
    rw [foldl_cons]
    obtain rfl | he := mem_cons.mp he
    · have hnot : e.trackId ∉ es.map (·.trackId) := (nodup_cons.mp h.ids).1
      refine ⟨?_, ?_, fun mid hmid hkept => ?_⟩
      · rw [manifest_foldl es _ hnot, manifest_applyEntry, Maps.get?_insert, if_pos rfl]
      · rw [live_foldl es _ hnot, live_applyEntry, if_pos rfl]
      obtain hnone | heq := pending_foldl es (r.applyEntry e) mid
      · exact hnone
      · rw [heq, pending_applyEntry, if_pos ⟨hmid, hkept⟩]
    obtain ⟨hid, hmid⟩ := hne e he
    have hih := ih hrest (r.applyEntry e₀) he
    rw [bound_applyEntry hid r hmid, kept_applyEntry hid] at hih
    exact hih

/-- What a manifest leaves of the tracks it has not. -/
theorem foldl_remove (ids : List String) (r : Registry T) (id : String) :
    (ids.foldl remove r).manifest[id]? = (if id ∈ ids then none else r.manifest[id]?) ∧
      (ids.foldl remove r).live[id]? = (if id ∈ ids then none else r.live[id]?) ∧
      (ids.foldl remove r).pendingByMid = r.pendingByMid := by
  induction ids generalizing r with
  | nil => exact ⟨rfl, rfl, rfl⟩
  | cons id' ids ih =>
    obtain ⟨hmanifest, hlive, hpending⟩ := ih (r.remove id')
    rw [foldl_cons, hmanifest, hlive, hpending]
    simp only [remove, dropLive, Maps.get?_erase, mem_cons]
    refine ⟨?_, ?_, trivial⟩ <;> by_cases hid : id = id' <;> simp [hid]

end Registry

/-! ## The system -/

inductive Act (T : Type) where
  | applyManifest (m : Manifest) (version : Option Nat)
  | attachTrackEvent (mid : Option String) (track : T)
  | detachMedia

structure State (T : Type) where
  registry : Registry T := {}
  /-- The media track of a mid's latest event. -/
  events : String → Option T := fun _ => none

def State.step (s : State T) : Act T → State T
  | .applyManifest m version => { s with registry := s.registry.applyManifest m version }
  | .attachTrackEvent mid track =>
    { registry := s.registry.attachTrackEvent mid track
      events := fun m => if mid = some m then some track else s.events m }
  | .detachMedia => { registry := s.registry.detachMedia }

def system (T : Type) : System (State T) (Act T) where
  init := {}
  step s a := some (s.step a)

/-- Each entry whose mid had an event is bound to the latest one's track. -/
def State.Shown (s : State T) : Prop :=
  ∀ (id : String) (e : ManifestEntry) (mid : String) (track : T),
    s.registry.manifest[id]? = some e → e.mid = some mid → s.events mid = some track →
      s.registry.live[id]? = some { track, mid }

/-- No entry is bound to the track of another mid. -/
def State.Own (s : State T) : Prop :=
  ∀ (id : String) (e : ManifestEntry) (l : Live T),
    s.registry.manifest[id]? = some e → s.registry.live[id]? = some l →
      e.mid = some l.mid ∧ s.events l.mid = some l.track

/-- What is bound is an entry's, and what waits is no entry's. -/
structure State.Tidy (s : State T) : Prop where
  mids : ∀ (id id' : String) (e e' : ManifestEntry) (mid : String),
    s.registry.manifest[id]? = some e → s.registry.manifest[id']? = some e' →
      e.mid = some mid → e'.mid = some mid → id = id'
  own : s.Own
  live : ∀ id : String, s.registry.manifest[id]? = none → s.registry.live[id]? = none
  pending : ∀ (mid : String) (l : Live T), s.registry.pendingByMid[mid]? = some l →
    l.mid = mid ∧ s.events mid = some l.track ∧
      ∀ (id : String) (e : ManifestEntry), s.registry.manifest[id]? = some e → e.mid ≠ some mid

/-- A manifest gives a mid that had an event to the entry that has it, or
the event is still waiting. -/
def Settled (s : State T) : Act T → Prop
  | .applyManifest m version =>
    s.registry.stale version = false → ∀ e ∈ m.entries, ∀ mid, e.mid = some mid →
      (s.events mid).isSome →
        (∃ prev, s.registry.manifest[e.trackId]? = some prev ∧ prev.mid = some mid) ∨
          (s.registry.pendingByMid[mid]?).isSome
  | .attachTrackEvent .. => True
  | .detachMedia => True

namespace State

variable {s : State T}

/-- What a manifest that is not stale does. -/
theorem applied (hs : s.Tidy) (m : Manifest) {version : Option Nat}
    (hstale : s.registry.stale version = false) :
    (∀ id : String, id ∉ m.entries.map (·.trackId) →
      (s.registry.applyManifest m version).manifest[id]? = none ∧
        (s.registry.applyManifest m version).live[id]? = none) ∧
    (∀ e ∈ m.entries,
      (s.registry.applyManifest m version).manifest[e.trackId]? = some e ∧
        (s.registry.applyManifest m version).live[e.trackId]? = s.registry.bound e ∧
        ∀ mid, e.mid = some mid → s.registry.kept e = none →
          (s.registry.applyManifest m version).pendingByMid[mid]? = none) ∧
    ∀ mid : String, (s.registry.applyManifest m version).pendingByMid[mid]? = none ∨
      (s.registry.applyManifest m version).pendingByMid[mid]? = s.registry.pendingByMid[mid]? := by
  unfold Registry.applyManifest
  rw [if_neg (by simp [hstale])]
  dsimp only
  generalize hids : s.registry.manifest.keys.filter
    (fun id => decide (id ∉ m.entries.map (·.trackId))) = removed
  have hremoved : ∀ id, id ∈ removed ↔
      s.registry.manifest[id]? ≠ none ∧ id ∉ m.entries.map (·.trackId) := by
    intro id
    rw [← hids, mem_filter, Std.ExtTreeMap.mem_keys, decide_eq_true_iff,
      Std.ExtTreeMap.mem_iff_isSome_getElem?, isSome_iff_ne_none]
  generalize hr : removed.foldl Registry.remove
    { s.registry with manifestVersion := version.or s.registry.manifestVersion } = r
  have hfold := fun id => Registry.foldl_remove removed
    { s.registry with manifestVersion := version.or s.registry.manifestVersion } id
  rw [hr] at hfold
  have hpending : r.pendingByMid = s.registry.pendingByMid := (hfold "").2.2
  refine ⟨fun id hid => ?_, fun e he => ?_, fun mid => ?_⟩
  · rw [Registry.manifest_foldl _ _ hid, Registry.live_foldl _ _ hid, (hfold id).1, (hfold id).2.1]
    cases hmem : s.registry.manifest[id]? with
    | none => simp [hs.live id hmem]
    | some e =>
      have hin : id ∈ removed := (hremoved id).mpr ⟨by simp [hmem], hid⟩
      simp [hin]
  · have hnot : e.trackId ∉ removed := fun hin =>
      ((hremoved _).mp hin).2 (List.mem_map_of_mem he)
    have hkept : r.kept e = s.registry.kept e := by
      rw [Registry.kept, (hfold e.trackId).1, (hfold e.trackId).2.1, if_neg hnot, if_neg hnot,
        Registry.kept]
    have hentry := Registry.entry_foldl ⟨m.ids, m.mids⟩ r he
    rwa [Registry.bound, hkept, hpending, ← Registry.bound] at hentry
  · rw [← hpending]
    exact Registry.pending_foldl m.entries r mid

variable {e : ManifestEntry}

theorem mem_of_applied {m : Manifest} {r : Registry T}
    (hout : ∀ id : String, id ∉ m.entries.map (·.trackId) → r.manifest[id]? = none)
    (hin : ∀ e ∈ m.entries, r.manifest[e.trackId]? = some e) {id : String}
    (h : r.manifest[id]? = some e) : e ∈ m.entries ∧ e.trackId = id := by
  by_cases hid : id ∈ m.entries.map (·.trackId)
  · obtain ⟨e', he', rfl⟩ := List.mem_map.mp hid
    rw [hin e' he', some.injEq] at h
    exact ⟨h ▸ he', by rw [h]⟩
  · rw [hout id hid] at h
    exact absurd h (by simp)

section

variable (hs : s.Tidy)
include hs

/-- What is left bound of an entry was bound to it, on the same mid. -/
theorem Tidy.kept {l : Live T} (h : s.registry.kept e = some l) :
    ∃ prev, s.registry.manifest[e.trackId]? = some prev ∧ prev.mid = e.mid ∧
      s.registry.live[e.trackId]? = some l := by
  obtain ⟨hmid, hlive⟩ := ite_none_left_eq_some.mp h
  cases hprev : s.registry.manifest[e.trackId]? with
  | none => simp [hs.live _ hprev] at hlive
  | some prev => exact ⟨prev, rfl, by simpa [hprev] using hmid, hlive⟩

variable {mid : String}

theorem Tidy.kept_eq_none
    (hno : ∀ (id : String) e', s.registry.manifest[id]? = some e' → e'.mid ≠ some mid)
    (hmid : e.mid = some mid) : s.registry.kept e = none := by
  by_contra hsome
  obtain ⟨l, hl⟩ := ne_none_iff_exists'.mp hsome
  obtain ⟨prev, hprev, hsame, -⟩ := hs.kept hl
  exact hno _ _ hprev (hsame.trans hmid)

/-- What is bound to an entry is the track of its mid's latest event. -/
theorem Tidy.bound {l : Live T}
    (h : s.registry.bound e = some l) : e.mid = some l.mid ∧ s.events l.mid = some l.track := by
  obtain hkept | ⟨-, hpending⟩ := or_eq_some_iff.mp h
  · obtain ⟨prev, hprev, hmid, hlive⟩ := hs.kept hkept
    rw [← hmid]
    exact hs.own _ _ _ hprev hlive
  obtain ⟨mid, hmid, hl⟩ := bind_eq_some_iff.mp hpending
  obtain ⟨rfl, htrack, -⟩ := hs.pending mid l hl
  exact ⟨hmid, htrack⟩

theorem Tidy.applyManifest (m : Manifest) (version : Option Nat) :
    (s.step (.applyManifest m version)).Tidy := by
  cases hstale : s.registry.stale version with
  | true =>
    have hsame : s.step (.applyManifest m version) = s := by
      simp [step, Registry.applyManifest, hstale]
    rw [hsame]
    exact hs
  | false =>
    obtain ⟨hout, hin, hpend⟩ := applied hs m hstale
    have hmem : ∀ (id : String) (e : ManifestEntry),
        (s.registry.applyManifest m version).manifest[id]? = some e →
          e ∈ m.entries ∧ e.trackId = id := fun id e =>
      mem_of_applied (fun id hid => (hout id hid).1) (fun e he => (hin e he).1)
    refine ⟨fun id id' e e' mid hget hget' hmid hmid' => ?_, fun id e l hget hl => ?_,
      fun id hid => ?_, fun mid l hl => ?_⟩
    · obtain ⟨he, rfl⟩ := hmem id e hget
      obtain ⟨he', rfl⟩ := hmem id' e' hget'
      rw [Maps.eq_of_nodup_filterMap m.mids he he' hmid hmid']
    · obtain ⟨he, rfl⟩ := hmem id e hget
      exact hs.bound ((hin e he).2.1.symm.trans hl)
    · by_cases hid' : id ∈ m.entries.map (·.trackId)
      · obtain ⟨e, he, rfl⟩ := List.mem_map.mp hid'
        exact absurd ((hin e he).1.symm.trans hid) (by simp)
      · exact (hout id hid').2
    obtain hnone | heq := hpend mid
    · exact absurd (hnone.symm.trans hl) (by simp)
    obtain ⟨hlmid, htrack, hno⟩ := hs.pending mid l (heq.symm.trans hl)
    refine ⟨hlmid, htrack, fun id e hget hmid => ?_⟩
    obtain ⟨he, rfl⟩ := hmem id e hget
    have hkept := hs.kept_eq_none hno hmid
    exact absurd (((hin e he).2.2 mid hmid hkept).symm.trans hl) (by simp)

theorem Tidy.bindLive {id : String} {track : T}
    (he : s.registry.manifest[id]? = some e) (hmid : e.mid = some mid) :
    let s' : State T :=
      { registry := s.registry.bindLive id { track, mid }
        events := fun m => if some mid = some m then some track else s.events m }
    s'.Tidy ∧ (s.Shown → s'.Shown) := by
  intro s'
  have hlive : ∀ id' : String, s'.registry.live[id']? =
      if id' = id then some { track, mid } else s.registry.live[id']? :=
    fun id' => Maps.get?_insert ..
  have hevents : ∀ m, m ≠ mid → s'.events m = s.events m := fun m hm =>
    if_neg fun heq => hm (some.inj heq).symm
  have hself : s'.events mid = some track := if_pos rfl
  -- another entry has another mid
  have hother : ∀ (id' : String) (e' : ManifestEntry) (m : String),
      s.registry.manifest[id']? = some e' → e'.mid = some m → (id' = id ↔ m = mid) := by
    intro id' e' m he' hm
    constructor
    · rintro rfl
      rw [he, some.injEq] at he'
      rw [← he', hmid, some.injEq] at hm
      exact hm.symm
    · rintro rfl
      exact hs.mids _ _ _ _ _ he' he hm hmid
  refine ⟨⟨hs.mids, fun id' e' l he' hl => ?_, fun id' hid' => ?_, fun m l hl => ?_⟩,
    fun hshown id' e' m t he' hm ht => ?_⟩
  · rw [hlive] at hl
    split_ifs at hl with hid
    · cases hl
      obtain rfl : e = e' := some.inj (he.symm.trans (hid ▸ he'))
      exact ⟨hmid, hself⟩
    obtain ⟨hm, ht⟩ := hs.own id' e' l he' hl
    refine ⟨hm, ?_⟩
    rw [hevents _ fun heq => hid ((hother id' e' _ he' hm).mpr heq)]
    exact ht
  · have hne : id' ≠ id := by
      rintro rfl
      exact absurd (he.symm.trans hid') (by simp)
    rw [hlive, if_neg hne]
    exact hs.live id' hid'
  · obtain ⟨hlm, ht, hno⟩ := hs.pending m l hl
    refine ⟨hlm, ?_, hno⟩
    rw [hevents m fun heq => hno id e he (heq ▸ hmid)]
    exact ht
  rw [hlive]
  split_ifs with hid
  · obtain rfl := (hother id' e' m he' hm).mp hid
    rw [some.inj (hself.symm.trans ht)]
  · rw [hevents m fun heq => hid ((hother id' e' m he' hm).mpr heq)] at ht
    exact hshown id' e' m t he' hm ht

theorem Tidy.wait (track : T)
    (hno : ∀ (id : String) (e : ManifestEntry), s.registry.manifest[id]? = some e →
      e.mid ≠ some mid) :
    let s' : State T :=
      { registry := { s.registry with
          pendingByMid := s.registry.pendingByMid.insert mid { track, mid } }
        events := fun m => if some mid = some m then some track else s.events m }
    s'.Tidy ∧ (s.Shown → s'.Shown) := by
  intro s'
  have hevents : ∀ m, m ≠ mid → s'.events m = s.events m := fun m hm =>
    if_neg fun heq => hm (some.inj heq).symm
  have hne : ∀ (id : String) (e : ManifestEntry) (m : String),
      s.registry.manifest[id]? = some e → e.mid = some m → m ≠ mid := by
    rintro id e m he hm rfl
    exact hno id e he hm
  refine ⟨⟨hs.mids, fun id e l he hl => ?_, hs.live, fun m l hl => ?_⟩,
    fun hshown id e m t he hm ht => ?_⟩
  · obtain ⟨hm, ht⟩ := hs.own id e l he hl
    refine ⟨hm, ?_⟩
    rw [hevents _ (hne id e _ he hm)]
    exact ht
  · have hpending : s'.registry.pendingByMid[m]? =
        if m = mid then some { track, mid } else s.registry.pendingByMid[m]? :=
      Maps.get?_insert ..
    rw [hpending] at hl
    split_ifs at hl with hm
    · cases hl
      subst hm
      exact ⟨rfl, if_pos rfl, hno⟩
    obtain ⟨hlm, ht, hother⟩ := hs.pending m l hl
    refine ⟨hlm, ?_, hother⟩
    rw [hevents m hm]
    exact ht
  · rw [hevents m (hne id e m he hm)] at ht
    exact hshown id e m t he hm ht

theorem Tidy.attachTrackEvent (mid : Option String) (track : T) :
    (s.step (.attachTrackEvent mid track)).Tidy ∧
      (s.Shown → (s.step (.attachTrackEvent mid track)).Shown) := by
  cases mid with
  | none =>
    have hsame : s.step (.attachTrackEvent none track) = s := by
      simp [State.step, Registry.attachTrackEvent]
    rw [hsame]
    exact ⟨hs, id⟩
  | some mid =>
    simp only [State.step, Registry.attachTrackEvent]
    cases hby : s.registry.byMid mid with
    | none => exact hs.wait track fun id e he => Registry.byMid_eq_none hby he
    | some id =>
      obtain ⟨e, he, hmid⟩ := Registry.byMid_eq_some hby
      exact hs.bindLive he hmid

theorem tidy_detachMedia : (s.step .detachMedia).Tidy := by
  refine ⟨hs.mids, fun id e l he hl => ?_, fun id hid => ?_, fun mid l hl => ?_⟩
  · exact absurd hl (by simp [State.step, Registry.detachMedia])
  · simp [State.step, Registry.detachMedia]
  · exact absurd hl (by simp [State.step, Registry.detachMedia])

theorem Tidy.step (a : Act T) : (s.step a).Tidy := by
  cases a with
  | applyManifest m version => exact hs.applyManifest m version
  | attachTrackEvent mid track => exact (hs.attachTrackEvent mid track).1
  | detachMedia => exact tidy_detachMedia hs

/-- A manifest shows each entry on its mid's track exactly if it is settled. -/
theorem settled_applyManifest (hshown : s.Shown) (m : Manifest) (version : Option Nat) :
    Settled s (.applyManifest m version) ↔ (s.step (.applyManifest m version)).Shown := by
  cases hstale : s.registry.stale version with
  | true =>
    have hsame : s.step (.applyManifest m version) = s := by
      simp [State.step, Registry.applyManifest, hstale]
    rw [hsame]
    exact iff_of_true (fun h => absurd (hstale.symm.trans h) (by simp)) hshown
  | false =>
    obtain ⟨hout, hin, -⟩ := applied hs m hstale
    constructor
    · intro hsettled id e mid track hget hmid ht
      obtain ⟨he, rfl⟩ := mem_of_applied (fun id hid => (hout id hid).1)
        (fun e he => (hin e he).1) hget
      refine (hin e he).2.1.trans ?_
      have hevent : s.events mid = some track := ht
      obtain ⟨prev, hprev, hprevmid⟩ | hpending :=
        hsettled hstale e he mid hmid (by rw [hevent]; rfl)
      · -- the entry had the mid, and is bound to it
        have hlive := hshown e.trackId prev mid track hprev hprevmid hevent
        have hkept : s.registry.kept e = some { track, mid } := by
          rw [Registry.kept, hprev, if_neg (by simp [hprevmid, hmid])]
          exact hlive
        rw [Registry.bound, hkept, some_or]
      -- the event waits, so no entry has the mid
      obtain ⟨l, hl⟩ := isSome_iff_exists.mp hpending
      obtain ⟨rfl, htrack, hno⟩ := hs.pending mid l hl
      have hkept := hs.kept_eq_none hno hmid
      rw [Registry.bound, hkept, none_or, hmid, bind_some, hl]
      rw [hevent, some.injEq] at htrack
      rw [htrack]
    intro hshown' _ e he mid hmid hevent
    obtain ⟨track, ht⟩ := isSome_iff_exists.mp hevent
    have hbound := (hin e he).2.1.symm.trans (hshown' e.trackId e mid track (hin e he).1 hmid ht)
    obtain hkept | ⟨-, hpending⟩ := or_eq_some_iff.mp hbound
    · obtain ⟨prev, hprev, hsame, -⟩ := hs.kept hkept
      exact .inl ⟨prev, hprev, hsame.trans hmid⟩
    right
    rw [hmid, bind_some] at hpending
    rw [hpending]
    rfl

theorem settled_iff (hshown : s.Shown) (a : Act T) :
    Settled s a ↔ (s.step a).Shown := by
  cases a with
  | applyManifest m version => exact settled_applyManifest hs hshown m version
  | attachTrackEvent mid track =>
    exact iff_of_true trivial ((hs.attachTrackEvent mid track).2 hshown)
  | detachMedia =>
    refine iff_of_true trivial fun id e mid track he hmid ht => ?_
    exact absurd ht (by simp [State.step])

end

theorem tidy_of_reachable (h : (system T).Reachable s) : s.Tidy := by
  refine (system T).invariant ?_ (fun s a s' hs hstep => ?_) h
  · refine ⟨fun _ _ _ _ _ he => ?_, fun _ _ _ he => ?_, fun _ _ => ?_, fun _ _ hl => ?_⟩
    · exact absurd he (by simp [system])
    · exact absurd he (by simp [system])
    · simp [system]
    · exact absurd hl (by simp [system])
  · rw [← some.inj hstep]
    exact hs.step a

end State

/-- In every run no entry is bound to the track of another mid; and every
entry whose mid had an event is bound to the track of the latest one in
every state, exactly if each manifest that is not stale gives a mid that had
an event to the entry that has it already, unless the event still waits. -/
theorem tracks_shown {as : List (Act T)} {s : State T}
    (hrun : (system T).run (system T).init as = some s) :
    (system T).AllStates State.Own (system T).init as ∧
      ((system T).AllSteps Settled (system T).init as ↔
        (system T).AllStates State.Shown (system T).init as) := by
  have hreach := System.AllSteps.and_reachable (system T).reachable_init
    ((system T).allSteps_true (system T).init as)
  have hinit : (system T).init.Own ∧ (system T).init.Shown := by
    constructor
    · exact (State.tidy_of_reachable (system T).reachable_init).own
    · intro id e mid track he
      exact absurd he (by simp [system])
  refine ⟨?_, ?_⟩
  · refine ((system T).allSteps_iff_states (Q := fun _ _ => True) ?_ hinit.1 hreach hrun).mp
      ((system T).allSteps_true _ _)
    rintro s a s' - ⟨hs, -⟩ hstep
    exact iff_of_true trivial (State.tidy_of_reachable (hs.step hstep)).own
  refine (system T).allSteps_iff_states ?_ hinit.2 hreach hrun
  rintro s a s' hshown ⟨hs, -⟩ hstep
  rw [← some.inj hstep]
  exact State.settled_iff (State.tidy_of_reachable hs) hshown a

/-- A manifest of one track on mid `0`. -/
def single (trackId : String) : Manifest where
  entries := [{ trackId, cap := "fjarr.camera", mid := some "0" }]
  ids := List.nodup_singleton _
  mids := List.nodup_singleton _

/-- An event before its manifest, and another of the same mid. -/
theorem tracks_shown_front : ∃ s, (system Nat).run (system Nat).init
      [.attachTrackEvent (some "0") 1, .applyManifest (single "front") (some 1),
        .attachTrackEvent (some "0") 2] = some s ∧
    s.registry.live["front"]? = some { track := 2, mid := "0" } := by
  refine ⟨_, rfl, ?_⟩
  have hsettled : (system Nat).AllSteps Settled (system Nat).init
      [.attachTrackEvent (some "0") 1, .applyManifest (single "front") (some 1),
        .attachTrackEvent (some "0") 2] := by
    refine ⟨trivial, fun s hs => ⟨?_, fun s' _ => ⟨trivial, fun _ _ => trivial⟩⟩⟩
    cases hs
    intro _ e he mid hmid _
    obtain rfl := mem_singleton.mp he
    cases hmid
    exact .inr (by decide +kernel)
  have hshown := (tracks_shown rfl).2.mp hsettled
  refine ((hshown.2 _ rfl).2 _ rfl).2 _ rfl "front"
    { trackId := "front", cap := "fjarr.camera", mid := some "0" } "0" 2 ?_ rfl rfl
  decide +kernel

/-- The mid of a track that was shown is given to another track in one
manifest. -/
theorem moved_mid_unbound : ∃ s, (system Nat).run (system Nat).init
      [.applyManifest (single "front") (some 1), .attachTrackEvent (some "0") 1,
        .applyManifest (single "rear") (some 2)] = some s ∧
    s.events "0" = some 1 ∧ s.registry.manifest["rear"]?.isSome = true ∧
      s.registry.live["rear"]? = none := by
  refine ⟨_, rfl, ?_⟩
  decide +kernel

end Fjarr.Web.Tracks
