/-
Fjarr.Web.Selection — `TrackRegistry`'s demand
(`web/packages/core/src/tracks.ts`): what the consumers of each track ask
for, and the `select-tracks` requests that tell the agent.

A track whose consumers change is `dirty` until a flush sends the fold of
their options, in one request for each capability. A request that fails
takes back what was sent for all of its tracks, and each of them has
`maxFlushAttempts` attempts until its demand changes or the peer does.

A table keyed by track id is a function of it, and the consumers of all
tracks are one list. What the agent answers, and when, is an input: a
request is in flight until it succeeds or fails, in any order, and one of a
peer that is gone can only fail. Of a failure the input says which tracks
it concerns (a track the answer rejected, or all of them for a timeout).

`latest`, `acked` and `concerned` are ghosts: what was last sent and last
acknowledged for a track, by the number of the flush, and how many of the
failures that used up its attempts concerned it. A track that leaves the
manifest, and every track when the peer goes, is at the agent's default
again, and an acknowledgement from before that counts for nothing. Latency
targets, delays and the published snapshot are left out.
-/
import Fjarr.Web.Tracks

namespace Fjarr.Web.Selection

open Lib Tracks List Option

/-! ## The registry -/

inductive Tier where
  | thumbnail
  | active
  deriving DecidableEq, Repr

inductive Preference where
  | sharpness
  | motion
  deriving DecidableEq, Repr

structure AcquireOptions where
  tier : Tier := .active
  visible : Bool := true
  preference : Option Preference := none
  interactive : Bool := false
  deriving DecidableEq, Repr

/-- One key of a patch: absent or `undefined`, `null`, or a value. -/
inductive Patch (α : Type) where
  | keep
  | reset
  | set (a : α)

def Patch.apply {α : Type} (p : Patch α) (current default : α) : α :=
  match p with
  | .keep => current
  | .reset => default
  | .set a => a

structure AcquirePatch where
  tier : Patch Tier := .keep
  visible : Patch Bool := .keep
  preference : Patch (Option Preference) := .keep
  interactive : Patch Bool := .keep

def AcquireOptions.patch (o : AcquireOptions) (p : AcquirePatch) : AcquireOptions where
  tier := p.tier.apply o.tier .active
  visible := p.visible.apply o.visible true
  preference := p.preference.apply o.preference none
  interactive := p.interactive.apply o.interactive false

structure Consumer where
  handle : Nat
  trackId : String
  options : AcquireOptions
  deriving DecidableEq, Repr

structure FoldedDemand where
  enabled : Bool
  tier : Tier
  preference : Option Preference
  interactive : Bool
  deriving DecidableEq, Repr

def noDemand : FoldedDemand where
  enabled := false
  tier := .thumbnail
  preference := none
  interactive := false

/-- A track of a `select-tracks` request. -/
structure Wire where
  trackId : String
  enabled : Bool
  tier : Tier
  preference : Option Preference
  deriving DecidableEq, Repr

def maxFlushAttempts : Nat := 4

structure Registry where
  manifest : String → Option ManifestEntry := fun _ => none
  manifestVersion : Option Nat := none
  consumers : List Consumer := []
  nextHandle : Nat := 1
  lastSent : String → Option Wire := fun _ => none
  flushAttempts : String → Nat := fun _ => 0
  dirty : List String := []
  flushTimer : Bool := false

/-- `dirty.add`. -/
def add (dirty : List String) (id : String) : List String :=
  if id ∈ dirty then dirty else dirty ++ [id]

namespace Registry

variable (r : Registry) (id : String)

def consumersOf : List Consumer :=
  r.consumers.filter (·.trackId = id)

/-- `fold`, over the visible consumers' options. -/
def foldOptions (visible : List AcquireOptions) : FoldedDemand :=
  if visible = [] then noDemand
  else
    { enabled := true
      tier := if visible.any (·.tier = .active) then .active else .thumbnail
      preference :=
        if visible.any (·.preference = some .sharpness) then some .sharpness
        else if visible.any (·.preference = some .motion) then some .motion
        else none
      interactive := visible.any (·.interactive) }

def fold : FoldedDemand :=
  foldOptions (((r.consumersOf id).map (·.options)).filter (·.visible))

def wire : Wire where
  trackId := id
  enabled := (r.fold id).enabled
  tier := (r.fold id).tier
  preference := (r.fold id).preference

/-- `scheduleFlush`. -/
def scheduleFlush : Registry :=
  if r.flushTimer || r.dirty = [] then r else { r with flushTimer := true }

def demandChanged : Registry :=
  scheduleFlush { r with
    flushAttempts := fun i => if i = id then 0 else r.flushAttempts i
    dirty := add r.dirty id }

def acquire (options : AcquireOptions) : Registry :=
  demandChanged { r with
    consumers := r.consumers ++ [{ handle := r.nextHandle, trackId := id, options }]
    nextHandle := r.nextHandle + 1 } id

/-- A handle's `update`. -/
def update (handle : Nat) (patch : AcquirePatch) : Registry :=
  match r.consumers.find? (·.handle = handle) with
  | none => r
  | some c =>
    demandChanged { r with
      consumers := r.consumers.map fun d =>
        if d.handle = handle && d.trackId = c.trackId then
          { d with options := d.options.patch patch }
        else d } c.trackId

/-- A handle's `release`. -/
def release (handle : Nat) : Registry :=
  match r.consumers.find? (·.handle = handle) with
  | none => r
  | some c =>
    demandChanged { r with
      consumers := r.consumers.filter fun d => !(d.handle = handle && d.trackId = c.trackId) }
      c.trackId

def stale (version : Option Nat) : Bool :=
  match version, r.manifestVersion with
  | some v, some applied => v < applied
  | _, _ => false

/-- The entry a manifest has for a track. -/
def entry (m : Manifest) (id : String) : Option ManifestEntry :=
  m.entries.find? (·.trackId = id)

/-- The tracks of a manifest that are new, and have consumers. -/
def returning (m : Manifest) : List String :=
  (m.entries.map (·.trackId)).filter fun id =>
    (r.manifest id).isNone && r.consumersOf id ≠ []

/-- `applyManifest`, when the manifest is not stale. -/
def applyManifest (m : Manifest) (version : Option Nat) : Registry :=
  scheduleFlush { r with
    manifest := entry m
    manifestVersion := version.or r.manifestVersion
    lastSent := fun id =>
      if (r.manifest id).isSome && (entry m id).isNone then none else r.lastSent id
    dirty := (r.returning m).foldl add r.dirty }

/-- `detachMedia`. -/
def detachMedia : Registry :=
  { r with manifestVersion := none, lastSent := fun _ => none, flushAttempts := fun _ => 0 }

/-- `clearManifest`. -/
def clearManifest : Registry :=
  { r.detachMedia with manifest := fun _ => none, dirty := [] }

/-- The dirty tracks a flush has something to send for. -/
def changed : List String :=
  r.dirty.filter fun id => (r.manifest id).isSome && r.lastSent id ≠ some (r.wire id)

/-- What a flush leaves. -/
def flushed : Registry :=
  { r with
    flushTimer := false
    dirty := r.dirty.filter fun id => (r.manifest id).isNone
    lastSent := fun id => if id ∈ r.changed then some (r.wire id) else r.lastSent id }

def inCap (cap id : String) : Bool := (r.manifest id).any (·.cap = cap)

end Registry

/-! ## Requests -/

structure Request where
  cap : String
  flush : Nat
  wires : List Wire
  /-- Its peer is gone. -/
  lost : Bool := false
  deriving DecidableEq, Repr

def Request.ids (q : Request) : List String := q.wires.map (·.trackId)

/-- One request for each capability. -/
def Registry.requests (r : Registry) (flush : Nat) : List Request :=
  (r.changed.filterMap fun id => (r.manifest id).map (·.cap)).eraseDups.map fun cap =>
    { cap, flush, wires := (r.changed.filter (r.inCap cap)).map r.wire }

/-- The last acknowledgement of a track's demand, and the flush it is of. -/
structure Acked where
  since : Nat := 0
  wire : Option Wire := none
  deriving DecidableEq, Repr

structure State where
  registry : Registry := {}
  connected : Bool := false
  inFlight : List Request := []
  flushes : Nat := 0
  latest : String → Option (Nat × Wire) := fun _ => none
  acked : String → Acked := fun _ => {}
  concerned : String → Nat := fun _ => 0

inductive Act where
  | acquire (id : String) (options : AcquireOptions)
  | update (handle : Nat) (patch : AcquirePatch)
  | release (handle : Nat)
  | applyManifest (m : Manifest) (version : Option Nat)
  /-- The session is connected. -/
  | connect
  /-- An ICE restart: the peer stays. -/
  | suspend
  /-- A new round: the peer is gone. -/
  | detach
  /-- The session is closed. -/
  | close
  | timer
  | succeed (j : Nat)
  | fail (j : Nat) (concerns : List String)

namespace State

variable (s : State)

/-- A change of the consumers, which renews a track's attempts. -/
def onDemand (id : String) (r : Registry) : State :=
  { s with
    registry := r
    concerned := fun i => if i = id then 0 else s.concerned i }

def acquire (s : State) (id : String) (options : AcquireOptions) : State :=
  s.onDemand id (s.registry.acquire id options)

def update (s : State) (handle : Nat) (patch : AcquirePatch) : State :=
  match s.registry.consumers.find? (·.handle = handle) with
  | none => s
  | some c => s.onDemand c.trackId (s.registry.update handle patch)

def release (s : State) (handle : Nat) : State :=
  match s.registry.consumers.find? (·.handle = handle) with
  | none => s
  | some c => s.onDemand c.trackId (s.registry.release handle)

def applyManifest (s : State) (m : Manifest) (version : Option Nat) : State :=
  if s.registry.stale version then s
  else
    { s with
      registry := s.registry.applyManifest m version
      acked := fun id =>
        if (s.registry.manifest id).isSome && (Registry.entry m id).isNone then
          { since := s.flushes }
        else s.acked id }

/-- `flush`, when it has the connection and something dirty. -/
def send : State :=
  { s with
    registry := s.registry.flushed
    inFlight := s.inFlight ++ s.registry.requests s.flushes
    flushes := s.flushes + 1
    latest := fun id =>
      if id ∈ s.registry.changed then some (s.flushes, s.registry.wire id) else s.latest id }

/-- `flush`. -/
def flush : State :=
  if !s.connected || s.registry.dirty = [] then
    { s with registry := { s.registry with flushTimer := false } }
  else s.send

/-- `reflushAll`, before its flush. -/
def remark : State :=
  { s with
    registry := { s.registry with
      lastSent := fun _ => none
      dirty := (s.registry.consumers.map (·.trackId)).foldl add s.registry.dirty } }

/-- `maybeConnected`, as far as the registry sees it. -/
def connect : State := { s with connected := true }.remark.flush

/-- The requests of a peer that is gone, and what the agent knew. -/
def lose (r : Registry) : State :=
  { s with
    registry := r
    connected := false
    inFlight := s.inFlight.map fun q => { q with lost := true }
    acked := fun _ => { since := s.flushes }
    concerned := fun _ => 0 }

def succeed (j : Nat) (q : Request) : State :=
  { s with
    registry := { s.registry with
      flushAttempts := fun id => if id ∈ q.ids then 0 else s.registry.flushAttempts id }
    concerned := fun id => if id ∈ q.ids then 0 else s.concerned id
    inFlight := s.inFlight.eraseIdx j
    acked := fun id =>
      match q.wires.find? (·.trackId = id) with
      | none => s.acked id
      | some w =>
        if (s.acked id).since ≤ q.flush then { since := q.flush, wire := some w }
        else s.acked id }

/-- The tracks of a failed request that are tried again. -/
def again (q : Request) : List String :=
  q.ids.filter fun id => s.registry.flushAttempts id + 1 < maxFlushAttempts

def fail (j : Nat) (q : Request) (concerns : List String) : State :=
  { s with
    registry := { s.registry with
      lastSent := fun id => if id ∈ q.ids then none else s.registry.lastSent id
      flushAttempts := fun id =>
        if id ∈ q.ids then s.registry.flushAttempts id + 1 else s.registry.flushAttempts id
      dirty := (s.again q).foldl add s.registry.dirty
      flushTimer := s.registry.flushTimer || s.again q ≠ [] }
    concerned := fun id =>
      if id ∈ q.ids && id ∈ concerns then s.concerned id + 1 else s.concerned id
    inFlight := s.inFlight.eraseIdx j }

def step : Act → Option State
  | .acquire id options => some (s.acquire id options)
  | .update handle patch => some (s.update handle patch)
  | .release handle => some (s.release handle)
  | .applyManifest m version => some (s.applyManifest m version)
  | .connect => some s.connect
  | .suspend => some { s with connected := false }
  | .detach => some (s.lose s.registry.detachMedia)
  | .close => some (s.lose s.registry.clearManifest)
  | .timer => if s.registry.flushTimer then some s.flush else none
  | .succeed j => (s.inFlight[j]?).bind fun q => if q.lost then none else some (s.succeed j q)
  | .fail j concerns => (s.inFlight[j]?).map fun q => s.fail j q concerns

end State

def registry : System State Act where
  init := {}
  step := State.step

/-! ## Demand -/

/-- No request is in flight on a connection, and no flush is scheduled. -/
def State.Idle (s : State) : Prop :=
  s.connected = true ∧ s.inFlight = [] ∧ s.registry.flushTimer = false

/-- When the registry is idle, what the agent last acknowledged for a track
of the manifest is the fold of its consumers, unless the failures that used
up its attempts concerned it. A track without consumers may also have been
acknowledged nothing. -/
def State.Settled (s : State) : Prop :=
  s.Idle → ∀ id, s.registry.manifest id ≠ none →
    (s.acked id).wire = some (s.registry.wire id) ∨
    (s.registry.consumersOf id = [] ∧ (s.acked id).wire = none) ∨
    maxFlushAttempts ≤ s.concerned id

/-- A request fails only for what concerns each of its tracks, and no
answer comes for a track whose attempts later requests have used up. -/
def Fair (s : State) : Act → Prop
  | .fail j concerns => ∀ q ∈ s.inFlight[j]?, ∀ id ∈ q.ids, id ∈ concerns
  | .succeed j => ∀ q ∈ s.inFlight[j]?, ∀ id ∈ q.ids,
      s.registry.flushAttempts id < maxFlushAttempts
  | _ => True

instance (s : State) : DecidablePred (Fair s)
  | .fail j concerns =>
    inferInstanceAs (Decidable (∀ q ∈ s.inFlight[j]?, ∀ id ∈ q.ids, id ∈ concerns))
  | .succeed j => inferInstanceAs (Decidable (∀ q ∈ s.inFlight[j]?, ∀ id ∈ q.ids,
      s.registry.flushAttempts id < maxFlushAttempts))
  | .acquire .. | .update .. | .release _ | .applyManifest .. | .connect | .suspend | .detach
  | .close | .timer => inferInstanceAs (Decidable True)

/-! ## The dirty tracks -/

theorem mem_add {dirty : List String} {id i : String} : i ∈ add dirty id ↔ i = id ∨ i ∈ dirty := by
  by_cases h : id ∈ dirty <;> grind [add]

theorem mem_foldl_add {ids : List String} : ∀ {dirty : List String} {i : String},
    i ∈ ids.foldl add dirty ↔ i ∈ ids ∨ i ∈ dirty := by
  induction ids with
  | nil => simp
  | cons id ids ih =>
    intro dirty i
    rw [foldl_cons, ih, mem_add, mem_cons]
    tauto

namespace Registry

variable {r : Registry} {id : String}

/-- What is sent for a track is a function of its own consumers. -/
theorem wire_congr {r' : Registry} (h : r'.consumersOf id = r.consumersOf id) :
    r'.wire id = r.wire id := by
  simp only [wire, fold, h]

theorem scheduleFlush_eq (r : Registry) :
    r.scheduleFlush = { r with flushTimer := r.flushTimer || r.dirty ≠ [] } := by
  obtain ⟨manifest, version, consumers, next, lastSent, attempts, dirty, timer⟩ := r
  cases timer <;> by_cases hd : dirty = [] <;> simp [scheduleFlush, hd]

theorem mem_changed :
    id ∈ r.changed ↔ id ∈ r.dirty ∧ r.manifest id ≠ none ∧ r.lastSent id ≠ some (r.wire id) := by
  simp [changed, isSome_iff_ne_none]

theorem exists_request (h : id ∈ r.changed) (n : Nat) :
    ∃ q ∈ r.requests n, q.flush = n ∧ r.wire id ∈ q.wires := by
  obtain ⟨e, he⟩ := ne_none_iff_exists'.mp (mem_changed.mp h).2.1
  refine ⟨_, List.mem_map.mpr ⟨e.cap, ?_, rfl⟩, rfl, ?_⟩
  · rw [mem_eraseDups]
    exact mem_filterMap.mpr ⟨id, h, by simp [he]⟩
  · exact List.mem_map.mpr ⟨id, mem_filter.mpr ⟨h, by simp [inCap, he]⟩, rfl⟩

theorem of_mem_requests {n : Nat} {q : Request} (h : q ∈ r.requests n) :
    q.flush = n ∧ ∀ w ∈ q.wires, ∃ id ∈ r.changed, w = r.wire id := by
  obtain ⟨cap, -, rfl⟩ := List.mem_map.mp h
  refine ⟨rfl, fun w hw => ?_⟩
  obtain ⟨id, hid, rfl⟩ := List.mem_map.mp hw
  exact ⟨id, mem_of_mem_filter hid, rfl⟩

/-- What a change of a track's consumers does to the registry. -/
structure Changes (r : Registry) (id : String) (r' : Registry) : Prop where
  manifest : r'.manifest = r.manifest
  lastSent : r'.lastSent = r.lastSent
  flushAttempts : r'.flushAttempts = fun i => if i = id then 0 else r.flushAttempts i
  dirty : r'.dirty = add r.dirty id
  flushTimer : r'.flushTimer = true
  consumersOf : ∀ i ≠ id, r'.consumersOf i = r.consumersOf i

theorem changes_demandChanged (consumers : List Consumer)
    (nextHandle : Nat)
    (h : ∀ i ≠ id, consumers.filter (·.trackId = i) = r.consumersOf i) :
    r.Changes id (demandChanged { r with consumers, nextHandle } id) := by
  have hdirty : add r.dirty id ≠ [] := ne_nil_of_mem (mem_add.mpr (.inl rfl))
  simp only [demandChanged, scheduleFlush_eq]
  exact ⟨rfl, rfl, rfl, rfl, by simp [hdirty], h⟩

theorem changes_acquire (r : Registry) (id : String) (options : AcquireOptions) :
    r.Changes id (r.acquire id options) := by
  refine changes_demandChanged _ _ fun i hi => ?_
  simp [consumersOf, Ne.symm hi]

theorem changes_update {handle : Nat} {c : Consumer}
    (hc : r.consumers.find? (·.handle = handle) = some c) (patch : AcquirePatch) :
    r.Changes c.trackId (r.update handle patch) := by
  unfold update
  rw [hc]
  refine changes_demandChanged _ _ fun i hi => ?_
  -- The update keeps every consumer's track, and every consumer of another track.
  rw [consumersOf, List.filter_map]
  have hkeep : ∀ d : Consumer, (if d.handle = handle && d.trackId = c.trackId then
      { d with options := d.options.patch patch } else d).trackId = d.trackId := by
    intro d
    split <;> rfl
  have hsame := filter_congr (l := r.consumers) fun d _ =>
    congrArg (fun t => decide (t = i)) (hkeep d)
  refine (congrArg (map _) hsame).trans ?_
  refine (map_congr_left fun d hd => ?_).trans (List.map_id _)
  have hid : d.trackId ≠ c.trackId := by
    have hi' : d.trackId = i := by simpa using (mem_filter.mp hd).2
    exact hi'.trans_ne hi
  simp [hid]

theorem changes_release {handle : Nat} {c : Consumer}
    (hc : r.consumers.find? (·.handle = handle) = some c) :
    r.Changes c.trackId (r.release handle) := by
  unfold release
  rw [hc]
  refine changes_demandChanged _ _ fun i hi => ?_
  rw [consumersOf, List.filter_filter]
  refine filter_congr fun d _ => ?_
  by_cases hd : d.trackId = i
  · simp [hd, hi]
  · simp [hd]

end Registry

/-! ## Requests and acknowledgements -/

/-- A demand that was the last one sent for its track, and is acknowledged
or in flight. -/
def State.Accounted (s : State) (id : String) (w : Wire) : Prop :=
  w.trackId = id ∧ ∃ n, s.latest id = some (n, w) ∧ (s.acked id).since ≤ n ∧
    (s.acked id = { since := n, wire := some w } ∨ ∃ q ∈ s.inFlight, q.flush = n ∧ w ∈ q.wires)

/-- Nothing was sent for the track since it was last at the agent's default. -/
def State.Untold (s : State) (id : String) : Prop :=
  ∀ n w, s.latest id = some (n, w) → n < (s.acked id).since

/-- Requests and acknowledgements are no newer than what was last sent. -/
structure State.Numbered (s : State) : Prop where
  inFlight : ∀ q ∈ s.inFlight, ∀ w ∈ q.wires, ∃ n w', s.latest w.trackId = some (n, w') ∧
    (q.flush < n ∨ q.flush = n ∧ w = w')
  acked : ∀ id w, (s.acked id).wire = some w →
    ∃ n w', s.latest id = some (n, w') ∧ (s.acked id).since ≤ n
  since : ∀ id, (s.acked id).since ≤ s.flushes
  latest : ∀ id n w, s.latest id = some (n, w) → n < s.flushes

namespace State

variable {s : State} {id : String} {w : Wire} {j : Nat} {q : Request}

theorem find?_wires (hfind : q.wires.find? (·.trackId = id) = some w) :
    w ∈ q.wires ∧ w.trackId = id :=
  ⟨mem_of_find?_eq_some hfind, by simpa using find?_some hfind⟩

theorem mem_of_eraseIdx {p : Request} (h : p ∈ s.inFlight) (hq : s.inFlight[j]? = some q) :
    p = q ∨ p ∈ s.inFlight.eraseIdx j := by
  obtain ⟨i, hi⟩ := mem_iff_getElem?.mp h
  by_cases hij : i = j
  · subst hij
    exact .inl (some.inj (hi.symm.trans hq))
  · exact .inr (mem_eraseIdx_iff_getElem?.mpr ⟨i, hij, hi⟩)

/-- An acknowledgement is ignored where it is from before the track was at
the agent's default, and is no newer than what was last sent. -/
theorem acked_succeed (hn : s.Numbered) (hq : s.inFlight[j]? = some q) (id : String) :
    ((∀ w ∈ q.wires, w.trackId = id → q.flush < (s.acked id).since) ∧
      (s.succeed j q).acked id = s.acked id) ∨
    ∃ w, (s.acked id).since ≤ q.flush ∧
      (s.succeed j q).acked id = { since := q.flush, wire := some w } ∧
      ∃ n w', s.latest id = some (n, w') ∧ (q.flush < n ∨ q.flush = n ∧ w = w') := by
  dsimp only [succeed]
  split
  · rename_i hfind
    refine .inl ⟨fun w hw hid => ?_, rfl⟩
    exact absurd hid (by simpa using find?_eq_none.mp hfind w hw)
  rename_i w hfind
  obtain ⟨hw, hid⟩ := find?_wires hfind
  split
  · rename_i hle
    obtain ⟨n, w', hlatest, hlast⟩ := hn.inFlight q (mem_of_getElem? hq) w hw
    exact .inr ⟨w, hle, rfl, n, w', hid ▸ hlatest, hlast⟩
  · rename_i hlt
    exact .inl ⟨fun _ _ _ => by omega, rfl⟩

theorem Numbered.succeed (hn : s.Numbered) (hq : s.inFlight[j]? = some q) :
    (s.succeed j q).Numbered where
  inFlight p hp := hn.inFlight p (mem_of_mem_eraseIdx hp)
  acked id w hw := by
    obtain ⟨-, heq⟩ | ⟨w₁, -, heq, n, w', hlatest, hlast⟩ := acked_succeed hn hq id
    · rw [heq] at hw ⊢
      exact hn.acked id w hw
    refine ⟨n, w', hlatest, ?_⟩
    rw [heq]
    dsimp only
    omega
  since id := by
    obtain ⟨-, heq⟩ | ⟨w₁, -, heq, n, w', hlatest, hlast⟩ := acked_succeed hn hq id
    · rw [heq]
      exact hn.since id
    have hlt := hn.latest id n w' hlatest
    rw [heq]
    change q.flush ≤ s.flushes
    omega
  latest := hn.latest

theorem Accounted.succeed (h : s.Accounted id w) (hn : s.Numbered)
    (hq : s.inFlight[j]? = some q) : (s.succeed j q).Accounted id w := by
  obtain ⟨hid, n, hlatest, hsince, hwhere⟩ := h
  refine ⟨hid, n, hlatest, ?_⟩
  obtain ⟨hold, heq⟩ | ⟨w₁, hle, heq, m, w', hlatest', hlast⟩ := acked_succeed hn hq id
  · rw [heq]
    refine ⟨hsince, hwhere.imp_right fun ⟨p, hp, hflush, hmem⟩ => ?_⟩
    obtain rfl | hp := mem_of_eraseIdx hp hq
    · have hlt := hold w hmem hid
      omega
    · exact ⟨p, hp, hflush, hmem⟩
  obtain ⟨rfl, rfl⟩ := Prod.mk.inj (some.inj (hlatest.symm.trans hlatest'))
  rw [heq]
  obtain hlt | ⟨rfl, rfl⟩ := hlast
  · refine ⟨hlt.le, .inr ?_⟩
    obtain hack | ⟨p, hp, hflush, hmem⟩ := hwhere
    · rw [hack] at hle
      exact absurd hle (by simpa using hlt)
    obtain rfl | hp := mem_of_eraseIdx hp hq
    · omega
    · exact ⟨p, hp, hflush, hmem⟩
  · exact ⟨le_rfl, .inl rfl⟩

theorem Untold.succeed (h : s.Untold id) (hn : s.Numbered) (hq : s.inFlight[j]? = some q) :
    (s.succeed j q).Untold id := by
  intro n w hlatest
  have hlt := h n w hlatest
  obtain ⟨-, heq⟩ | ⟨w₁, hle, -, m, w', hlatest', hlast⟩ := acked_succeed hn hq id
  · rw [heq]
    exact hlt
  · obtain ⟨rfl, rfl⟩ := Prod.mk.inj (some.inj (Eq.trans (Eq.symm hlatest) hlatest'))
    omega

theorem Accounted.fail (h : s.Accounted id w) (hq : s.inFlight[j]? = some q)
    (hid : id ∉ q.ids) (concerns : List String) : (s.fail j q concerns).Accounted id w := by
  obtain ⟨rfl, n, hlatest, hsince, hwhere⟩ := h
  refine ⟨rfl, n, hlatest, hsince, hwhere.imp_right fun ⟨p, hp, hflush, hmem⟩ => ?_⟩
  obtain rfl | hp := mem_of_eraseIdx hp hq
  · exact absurd (List.mem_map.mpr ⟨w, hmem, rfl⟩) hid
  · exact ⟨p, hp, hflush, hmem⟩

theorem Numbered.fail (hn : s.Numbered) (concerns : List String) :
    (s.fail j q concerns).Numbered where
  inFlight p hp := hn.inFlight p (mem_of_mem_eraseIdx hp)
  acked := hn.acked
  since := hn.since
  latest := hn.latest

theorem Numbered.send (hn : s.Numbered) : s.send.Numbered where
  inFlight p hp w hw := by
    dsimp only [State.send]
    obtain hp | hp := mem_append.mp hp
    · obtain ⟨n, w', hlatest, hlast⟩ := hn.inFlight p hp w hw
      have hlt := hn.latest _ n w' hlatest
      split
      · exact ⟨_, _, rfl, .inl (by omega)⟩
      · exact ⟨n, w', hlatest, hlast⟩
    obtain ⟨hflush, hwires⟩ := Registry.of_mem_requests hp
    obtain ⟨i, hi, rfl⟩ := hwires w hw
    exact ⟨s.flushes, _, if_pos hi, .inr ⟨hflush, rfl⟩⟩
  acked i w hw := by
    obtain ⟨n, w', hlatest, hle⟩ := hn.acked i w hw
    dsimp only [State.send]
    split
    · exact ⟨_, _, rfl, hn.since i⟩
    · exact ⟨n, w', hlatest, hle⟩
  since i := (hn.since i).trans (Nat.le_succ _)
  latest i n w h := by
    dsimp only [State.send] at h ⊢
    split at h
    · obtain ⟨rfl, -⟩ := Prod.mk.inj (some.inj h)
      exact Nat.lt_succ_self _
    · exact (hn.latest i n w h).trans (Nat.lt_succ_self _)

theorem Accounted.send (h : s.Accounted id w) (hid : id ∉ s.registry.changed) :
    s.send.Accounted id w := by
  obtain ⟨rfl, n, hlatest, hsince, hwhere⟩ := h
  refine ⟨rfl, n, (if_neg hid).trans hlatest, hsince, hwhere.imp_right ?_⟩
  exact fun ⟨p, hp, hflush, hmem⟩ => ⟨p, mem_append_left _ hp, hflush, hmem⟩

theorem accounted_send (hn : s.Numbered) (hid : id ∈ s.registry.changed) :
    s.send.Accounted id (s.registry.wire id) := by
  obtain ⟨q, hq, hflush, hmem⟩ := Registry.exists_request hid s.flushes
  exact ⟨rfl, s.flushes, if_pos hid, hn.since id,
    .inr ⟨q, mem_append_right _ hq, hflush, hmem⟩⟩

theorem Accounted.congr {s' : State} (h : s.Accounted id w) (hlatest : s'.latest id = s.latest id)
    (hacked : s'.acked id = s.acked id) (hflight : s'.inFlight = s.inFlight) :
    s'.Accounted id w := by
  simpa only [Accounted, hlatest, hacked, hflight] using h

theorem Untold.congr {s' : State} (h : s.Untold id) (hlatest : s'.latest id = s.latest id)
    (hacked : s'.acked id = s.acked id) : s'.Untold id := by
  simpa only [Untold, hlatest, hacked] using h

end State

/-! ## What a step keeps -/

/-- What is known of a track that is not dirty. -/
structure State.Tracked (s : State) (id : String) : Prop where
  current : ∀ w, s.registry.lastSent id = some w → id ∉ s.registry.dirty → w = s.registry.wire id
  known : ∀ w, s.registry.lastSent id = some w → s.Accounted id w
  wanted : s.connected = true → s.registry.manifest id ≠ none → s.registry.consumersOf id ≠ [] →
    id ∉ s.registry.dirty → s.registry.lastSent id = none →
    maxFlushAttempts ≤ s.registry.flushAttempts id
  left : s.registry.consumersOf id = [] → id ∉ s.registry.dirty → s.registry.lastSent id = none →
    maxFlushAttempts ≤ s.registry.flushAttempts id ∨ s.Untold id ∨
      s.Accounted id (s.registry.wire id)

structure State.Sound (s : State) : Prop where
  numbered : s.Numbered
  tracked : ∀ id, s.Tracked id
  concerned : s.concerned = s.registry.flushAttempts

/-- A dirty track of the manifest has its flush scheduled. -/
def State.Scheduled (s : State) : Prop :=
  s.connected = true → ∀ id ∈ s.registry.dirty, s.registry.manifest id ≠ none →
    s.registry.flushTimer = true

namespace State

variable {s : State} {r : Registry} {id : String} {j : Nat} {q : Request}

/-- A track of which a step changes nothing, or nothing that counts. -/
theorem Tracked.transfer {s' : State} (h : s.Tracked id)
    (hsent : s'.registry.lastSent id = s.registry.lastSent id)
    (hcons : s'.registry.consumersOf id = s.registry.consumersOf id)
    (hdirty : id ∉ s'.registry.dirty → id ∉ s.registry.dirty)
    (hattempts : maxFlushAttempts ≤ s.registry.flushAttempts id →
      maxFlushAttempts ≤ s'.registry.flushAttempts id)
    (hwanted : s'.connected = true → s'.registry.manifest id ≠ none →
      s.registry.consumersOf id ≠ [] → id ∉ s'.registry.dirty →
      s.connected = true ∧ s.registry.manifest id ≠ none)
    (haccounted : ∀ w, s.Accounted id w → s'.Accounted id w)
    (huntold : s.Untold id → s'.Untold id) : s'.Tracked id where
  current w hw hnot := by
    rw [Registry.wire_congr hcons]
    exact h.current w (hsent ▸ hw) (hdirty hnot)
  known w hw := haccounted w (h.known w (hsent ▸ hw))
  wanted hconn hman hsome hnot hnone := by
    rw [hcons] at hsome
    obtain ⟨hconn, hman⟩ := hwanted hconn hman hsome hnot
    exact hattempts (h.wanted hconn hman hsome (hdirty hnot) (hsent ▸ hnone))
  left hempty hnot hnone := by
    rw [hcons] at hempty
    rw [Registry.wire_congr hcons]
    exact (h.left hempty (hdirty hnot) (hsent ▸ hnone)).imp hattempts
      (Or.imp huntold (haccounted _))

/-- A track of which nothing counts as sent. -/
theorem tracked_of_unsent (hnone : s.registry.lastSent id = none)
    (hwanted : s.connected = true → s.registry.manifest id ≠ none →
      s.registry.consumersOf id ≠ [] → id ∉ s.registry.dirty →
      maxFlushAttempts ≤ s.registry.flushAttempts id)
    (hleft : s.registry.consumersOf id = [] → id ∉ s.registry.dirty →
      maxFlushAttempts ≤ s.registry.flushAttempts id ∨ s.Untold id ∨
        s.Accounted id (s.registry.wire id)) : s.Tracked id where
  current w hw := absurd (hw.symm.trans hnone) (by simp)
  known w hw := absurd (hw.symm.trans hnone) (by simp)
  wanted hconn hman hsome hnot _ := hwanted hconn hman hsome hnot
  left hempty hnot _ := hleft hempty hnot

theorem Sound.onDemand (h : s.Sound) (hr : s.registry.Changes id r) :
    (s.onDemand id r).Sound where
  numbered := ⟨h.numbered.inFlight, h.numbered.acked, h.numbered.since, h.numbered.latest⟩
  tracked i := by
    have hi := h.tracked i
    have hsent : r.lastSent i = s.registry.lastSent i := congrFun hr.lastSent i
    have hdirty : i ∉ r.dirty → i ≠ id ∧ i ∉ s.registry.dirty := by
      simp [hr.dirty, mem_add]
    by_cases hid : i = id
    · have hmem : i ∈ r.dirty := by
        rw [hr.dirty]
        exact mem_add.mpr (.inl hid)
      exact ⟨fun _ _ hnot => absurd hmem hnot,
        fun w hw => (hi.known w (hsent ▸ hw)).congr rfl rfl rfl,
        fun _ _ _ hnot => absurd hmem hnot, fun _ hnot => absurd hmem hnot⟩
    refine hi.transfer hsent (hr.consumersOf i hid) (fun hnot => (hdirty hnot).2) ?_ ?_
      (fun w hw => hw.congr rfl rfl rfl) (·.congr rfl rfl)
    · intro hmax
      change _ ≤ r.flushAttempts i
      rw [hr.flushAttempts]
      simpa only [if_neg hid] using hmax
    · intro hconn hman _ _
      exact ⟨hconn, fun hnone => hman ((congrFun hr.manifest i).trans hnone)⟩
  concerned := by
    dsimp only [State.onDemand]
    rw [hr.flushAttempts, h.concerned]

theorem Scheduled.onDemand (hr : s.registry.Changes id r) : (s.onDemand id r).Scheduled :=
  fun _ _ _ _ => hr.flushTimer

theorem Numbered.applyManifest (hn : s.Numbered) (m : Manifest) (version : Option Nat) :
    (s.applyManifest m version).Numbered := by
  unfold State.applyManifest
  split
  · exact hn
  refine ⟨hn.inFlight, fun i w => ?_, fun i => ?_, hn.latest⟩
  · dsimp only
    split
    · exact nofun
    · exact hn.acked i w
  dsimp only
  split
  · exact le_rfl
  · exact hn.since i

/-- A track a manifest brings in is dirty if it has consumers. -/
theorem mem_dirty_applyManifest {m : Manifest} {version : Option Nat}
    (hnew : r.manifest id = none) (hentry : Registry.entry m id ≠ none)
    (hcons : r.consumersOf id ≠ []) : id ∈ (r.applyManifest m version).dirty := by
  obtain ⟨e, he⟩ := ne_none_iff_exists'.mp hentry
  have hid : e.trackId = id := by simpa using find?_some he
  simp only [Registry.applyManifest, Registry.scheduleFlush_eq, mem_foldl_add]
  refine .inl (mem_filter.mpr ⟨?_, by simp [hnew, hcons]⟩)
  exact List.mem_map.mpr ⟨e, mem_of_find?_eq_some he, hid⟩

theorem Sound.applyManifest (h : s.Sound) (m : Manifest) (version : Option Nat) :
    (s.applyManifest m version).Sound := by
  refine ⟨h.numbered.applyManifest m version, fun i => ?_, ?_⟩
  · have hnew := @mem_dirty_applyManifest s.registry i m version
    have hi := h.tracked i
    unfold State.applyManifest
    split
    · exact hi
    by_cases hgone : (s.registry.manifest i).isSome && (Registry.entry m i).isNone
    · refine tracked_of_unsent ?_ (fun _ hman => ?_) fun _ _ => .inr (.inl ?_)
      · simp only [Registry.applyManifest, Registry.scheduleFlush_eq, hgone, if_true]
      · simp only [Registry.applyManifest, Registry.scheduleFlush_eq] at hman
        exact absurd (by simpa using hgone) fun hg : _ ∧ _ => hman hg.2
      intro n w hlatest
      simp only [hgone, if_true]
      exact h.numbered.latest i n w hlatest
    have hacked : (if (s.registry.manifest i).isSome && (Registry.entry m i).isNone then
        { since := s.flushes } else s.acked i) = s.acked i := if_neg hgone
    refine hi.transfer ?_ ?_ ?_ ?_ ?_ (fun w hw => hw.congr rfl hacked rfl)
      (·.congr rfl hacked)
    · simp only [Registry.applyManifest, Registry.scheduleFlush_eq, hgone,
        Bool.false_eq_true, if_false]
    · simp only [Registry.applyManifest, Registry.scheduleFlush_eq]
      rfl
    · simp only [Registry.applyManifest, Registry.scheduleFlush_eq, mem_foldl_add, not_or]
      exact And.right
    · simp only [Registry.applyManifest, Registry.scheduleFlush_eq]
      exact id
    intro hconn hman hcons hnot
    refine ⟨hconn, fun hnone => hnot (hnew hnone ?_ hcons)⟩
    simpa only [Registry.applyManifest, Registry.scheduleFlush_eq] using hman
  unfold State.applyManifest
  split
  · exact h.concerned
  · simpa only [Registry.applyManifest, Registry.scheduleFlush_eq] using h.concerned

theorem Scheduled.applyManifest (h : s.Scheduled) (m : Manifest) (version : Option Nat) :
    (s.applyManifest m version).Scheduled := by
  unfold State.applyManifest
  split
  · exact h
  intro _ i hi _
  simp only [Registry.applyManifest, Registry.scheduleFlush_eq] at hi ⊢
  simp [ne_nil_of_mem hi]

theorem Sound.send (h : s.Sound) : s.send.Sound where
  numbered := h.numbered.send
  tracked i := by
    have hi := h.tracked i
    by_cases hsends : i ∈ s.registry.dirty ∧ s.registry.manifest i ≠ none
    · have hsent : s.send.registry.lastSent i = some (s.registry.wire i) := by
        dsimp only [State.send, Registry.flushed]
        split
        · rfl
        rename_i hnot
        by_contra hne
        exact hnot (Registry.mem_changed.mpr ⟨hsends.1, hsends.2, hne⟩)
      have hacc : s.send.Accounted i (s.registry.wire i) := by
        by_cases hmem : i ∈ s.registry.changed
        · exact accounted_send h.numbered hmem
        refine (hi.known _ ?_).send hmem
        by_contra hne
        exact hmem (Registry.mem_changed.mpr ⟨hsends.1, hsends.2, hne⟩)
      refine ⟨fun w hw _ => ?_, fun w hw => ?_, fun _ _ _ _ hnone => ?_, fun _ _ hnone => ?_⟩
      · exact some.inj (hw.symm.trans hsent)
      · exact some.inj (hw.symm.trans hsent) ▸ hacc
      · exact absurd (hsent.symm.trans hnone) (by simp)
      · exact absurd (hsent.symm.trans hnone) (by simp)
    have hnot : i ∉ s.registry.changed := fun hmem =>
      hsends ⟨(Registry.mem_changed.mp hmem).1, (Registry.mem_changed.mp hmem).2.1⟩
    refine hi.transfer (if_neg hnot) rfl (fun hkeep hdirty => ?_) id
      (fun hconn hman _ _ => ⟨hconn, hman⟩) (fun w hw => hw.send hnot)
      (·.congr (if_neg hnot) rfl)
    refine hkeep (mem_filter.mpr ⟨hdirty, ?_⟩)
    by_contra hsome
    exact hsends ⟨hdirty, fun hnone => hsome (by simp [hnone])⟩
  concerned := h.concerned

theorem Scheduled.send (s : State) : s.send.Scheduled := by
  intro _ i hi hman
  have hnone : s.registry.manifest i = none := by simpa using (mem_filter.mp hi).2
  exact absurd hnone hman

theorem sound_flush (h : s.Sound) : s.flush.Sound ∧ s.flush.Scheduled := by
  unfold flush
  split
  · rename_i hidle
    refine ⟨⟨⟨h.numbered.inFlight, h.numbered.acked, h.numbered.since, h.numbered.latest⟩,
      fun i => (h.tracked i).transfer rfl rfl id id
        (fun hconn hman _ _ => ⟨hconn, hman⟩) (fun w hw => hw.congr rfl rfl rfl)
        (·.congr rfl rfl), h.concerned⟩, ?_⟩
    intro hconn i hi _
    change s.connected = true at hconn
    have hdirty : s.registry.dirty = [] := by simpa [hconn] using hidle
    exact absurd (hdirty ▸ hi) not_mem_nil
  · exact ⟨h.send, Scheduled.send s⟩

/-- A connection marks what has consumers, and the agent still knows of
the rest what it was last told. -/
theorem Sound.remark (h : s.Sound) : ({ s with connected := true } : State).remark.Sound where
  numbered := ⟨h.numbered.inFlight, h.numbered.acked, h.numbered.since, h.numbered.latest⟩
  tracked i := by
    have hi := h.tracked i
    have hmark : i ∉ (s.registry.consumers.map (·.trackId)).foldl add s.registry.dirty →
        s.registry.consumersOf i = [] ∧ i ∉ s.registry.dirty := by
      rw [mem_foldl_add, not_or]
      refine And.imp_left fun hnot => filter_eq_nil_iff.mpr fun c hc => ?_
      simpa using fun hid : c.trackId = i => hnot (List.mem_map.mpr ⟨c, hc, hid⟩)
    refine tracked_of_unsent rfl (fun _ _ hsome hnot => ?_) fun hempty hnot => ?_
    · exact absurd (hmark hnot).1 hsome
    obtain ⟨-, hclean⟩ := hmark hnot
    cases hsent : s.registry.lastSent i with
    | none =>
      exact (hi.left hempty hclean hsent).imp_right
        (Or.imp (·.congr rfl rfl) (·.congr rfl rfl rfl))
    | some w =>
      obtain rfl := hi.current w hsent hclean
      exact .inr (.inr ((hi.known _ hsent).congr rfl rfl rfl))
  concerned := h.concerned

/-- Without its peer the registry has nothing sent and nothing known. -/
theorem Sound.lose (h : s.Sound) (hsent : r.lastSent = fun _ => none)
    (hattempts : r.flushAttempts = fun _ => 0) : (s.lose r).Sound where
  numbered := by
    refine ⟨fun p hp => ?_, nofun, fun _ => le_rfl,
      h.numbered.latest⟩
    obtain ⟨q, hq, rfl⟩ := List.mem_map.mp hp
    exact h.numbered.inFlight q hq
  tracked i := tracked_of_unsent (congrFun hsent i)
    nofun fun _ _ => .inr (.inl (h.numbered.latest i))
  concerned := hattempts.symm

theorem Sound.succeed (h : s.Sound) (hq : s.inFlight[j]? = some q)
    (hfair : ∀ i ∈ q.ids, s.registry.flushAttempts i < maxFlushAttempts) :
    (s.succeed j q).Sound where
  numbered := h.numbered.succeed hq
  tracked i := by
    refine (h.tracked i).transfer rfl rfl id (fun hmax => ?_)
      (fun hconn hman _ _ => ⟨hconn, hman⟩) (fun w hw => hw.succeed h.numbered hq)
      (·.succeed h.numbered hq)
    have hid : i ∉ q.ids := fun hid => absurd (hfair i hid) (not_lt.mpr hmax)
    exact hmax.trans_eq (if_neg hid).symm
  concerned := by
    dsimp only [State.succeed]
    rw [h.concerned]

theorem Sound.fail (h : s.Sound) (hq : s.inFlight[j]? = some q) {concerns : List String}
    (hfair : ∀ i ∈ q.ids, i ∈ concerns) : (s.fail j q concerns).Sound where
  numbered := h.numbered.fail concerns
  tracked i := by
    have hdirty : i ∉ (s.again q).foldl add s.registry.dirty →
        i ∉ s.again q ∧ i ∉ s.registry.dirty := by
      simp [mem_foldl_add]
    by_cases hid : i ∈ q.ids
    · -- Tried again, or out of attempts.
      have hspent : i ∉ (s.again q).foldl add s.registry.dirty →
          maxFlushAttempts ≤ (s.fail j q concerns).registry.flushAttempts i := by
        intro hnot
        refine le_of_le_of_eq ?_ (if_pos hid).symm
        by_contra hlt
        exact (hdirty hnot).1 (mem_filter.mpr ⟨hid, by simpa using hlt⟩)
      exact tracked_of_unsent (if_pos hid) (fun _ _ _ hnot => hspent hnot)
        fun _ hnot => .inl (hspent hnot)
    exact (h.tracked i).transfer (if_neg hid) rfl (fun hnot => (hdirty hnot).2)
      (fun hmax => hmax.trans_eq (if_neg hid).symm) (fun hconn hman _ _ => ⟨hconn, hman⟩)
      (fun w hw => hw.fail hq hid concerns) (·.congr rfl rfl)
  concerned := by
    funext i
    dsimp only [State.fail]
    by_cases hid : i ∈ q.ids
    · simp [hid, hfair i hid, h.concerned]
    · simp [hid, h.concerned]

theorem Scheduled.fail (h : s.Scheduled) (concerns : List String) :
    (s.fail j q concerns).Scheduled := by
  intro hconn i hi hman
  change (s.registry.flushTimer || s.again q ≠ []) = true
  obtain hi | hi := mem_foldl_add.mp hi
  · simp [ne_nil_of_mem hi]
  · simp [h hconn i hi hman]

end State

/-! ## Demand converges -/

theorem sound_step {s s' : State} {a : Act} (h : s.Sound ∧ s.Scheduled) (hfair : Fair s a)
    (hstep : s.step a = some s') : s'.Sound ∧ s'.Scheduled := by
  obtain ⟨h, hsched⟩ := h
  cases a with
  | acquire id options =>
    cases hstep
    have hr := s.registry.changes_acquire id options
    exact ⟨h.onDemand hr, .onDemand hr⟩
  | update handle patch =>
    cases hstep
    unfold State.update
    split
    · exact ⟨h, hsched⟩
    rename_i c hc
    have hr := Registry.changes_update hc patch
    exact ⟨h.onDemand hr, .onDemand hr⟩
  | release handle =>
    cases hstep
    unfold State.release
    split
    · exact ⟨h, hsched⟩
    rename_i c hc
    have hr := Registry.changes_release hc
    exact ⟨h.onDemand hr, .onDemand hr⟩
  | applyManifest m version =>
    cases hstep
    exact ⟨h.applyManifest m version, hsched.applyManifest m version⟩
  | connect =>
    cases hstep
    exact State.sound_flush h.remark
  | suspend =>
    cases hstep
    refine ⟨⟨⟨h.numbered.inFlight, h.numbered.acked, h.numbered.since, h.numbered.latest⟩,
      fun i => ?_, h.concerned⟩, nofun⟩
    exact (h.tracked i).transfer rfl rfl id id
      nofun (fun w hw => hw.congr rfl rfl rfl) (·.congr rfl rfl)
  | detach =>
    cases hstep
    exact ⟨h.lose rfl rfl, nofun⟩
  | close =>
    cases hstep
    exact ⟨h.lose rfl rfl, nofun⟩
  | timer =>
    obtain ⟨-, rfl⟩ := guarded.mp hstep
    exact State.sound_flush h
  | succeed j =>
    obtain ⟨q, hq, hlive⟩ := bind_eq_some_iff.mp hstep
    obtain ⟨-, rfl⟩ := guarded_not.mp hlive
    exact ⟨h.succeed hq (hfair q hq), hsched⟩
  | fail j concerns =>
    obtain ⟨q, hq, rfl⟩ := map_eq_some_iff.mp hstep
    exact ⟨h.fail hq (hfair q hq), hsched.fail concerns⟩

theorem sound_init : State.Sound {} where
  numbered := ⟨nofun, nofun,
    fun _ => le_rfl, nofun⟩
  tracked _ := State.tracked_of_unsent rfl nofun
    fun _ _ => .inr (.inl nofun)
  concerned := rfl

/-- What is known of the tracks settles their demand once nothing is in
flight or scheduled. -/
theorem State.Sound.settled {s : State} (h : s.Sound) (hsched : s.Scheduled) : s.Settled := by
  intro ⟨hconn, hflight, htimer⟩ id hman
  have hclean : id ∉ s.registry.dirty := fun hdirty => by
    have htrue := hsched hconn id hdirty hman
    exact absurd (htimer.symm.trans htrue) (by simp)
  have hacked : ∀ w, s.Accounted id w → (s.acked id).wire = some w := by
    rintro w ⟨-, n, -, -, hack | ⟨q, hq, -⟩⟩
    · rw [hack]
    · exact absurd (hflight ▸ hq) not_mem_nil
  rw [h.concerned]
  have hid := h.tracked id
  cases hsent : s.registry.lastSent id with
  | some w =>
    obtain rfl := hid.current w hsent hclean
    exact .inl (hacked _ (hid.known _ hsent))
  | none =>
    by_cases hempty : s.registry.consumersOf id = []
    · obtain hmax | huntold | hacc := hid.left hempty hclean hsent
      · exact .inr (.inr hmax)
      · refine .inr (.inl ⟨hempty, ?_⟩)
        by_contra hne
        obtain ⟨w, hw⟩ := ne_none_iff_exists'.mp hne
        obtain ⟨n, w', hlatest, hle⟩ := h.numbered.acked id w hw
        exact absurd (huntold n w' hlatest) (not_lt.mpr hle)
      · exact .inl (hacked _ hacc)
    · exact .inr (.inr (hid.wanted hconn hman hempty hclean hsent))

/-- Demand converges in every run whose failures concern each track of
their request. -/
theorem demand_settles {as : List Act} {s : State} (hrun : registry.run registry.init as = some s)
    (hfair : registry.AllSteps Fair registry.init as) : s.Settled := by
  obtain ⟨hsound, hsched⟩ := System.run_induction (P := fun s => s.Sound ∧ s.Scheduled) (Q := Fair)
    registry (fun _ _ _ => sound_step) ⟨sound_init, nofun⟩
    hfair hrun
  exact hsound.settled hsched

/-- Two cameras of one capability. -/
def cameras : Manifest where
  entries := [{ trackId := "front", cap := "fjarr.camera", mid := some "0" },
    { trackId := "rear", cap := "fjarr.camera", mid := some "1" }]
  ids := by decide
  mids := by decide

/-- Both are asked for on a connection, and their request is sent. -/
def asked : List Act :=
  [.applyManifest cameras (some 1), .connect, .acquire "front" {}, .acquire "rear" {}, .timer]

theorem demand_settles_asked :
    (registry.run registry.init (asked ++ [.succeed 0])).isSome = true ∧
    ∀ s, registry.run registry.init (asked ++ [.succeed 0]) = some s → s.Settled :=
  ⟨by decide +kernel, fun _ hrun => demand_settles hrun (by decide +kernel)⟩

/-- The answer rejected the rear camera's m-line, so the agent refuses the
request each of the four times it is sent. The front camera, which it would
have taken, is left with nothing acknowledged and no attempt to come. -/
theorem rejected_track_starves_another :
    ∃ s, registry.run registry.init (asked ++ [.fail 0 ["rear"], .timer, .fail 0 ["rear"], .timer,
        .fail 0 ["rear"], .timer, .fail 0 ["rear"]]) = some s ∧
      s.registry.consumersOf "front" ≠ [] ∧ s.acked "front" = {} ∧ s.concerned "front" = 0 ∧
      ¬ s.Settled := by
  have hend : (registry.run registry.init (asked ++ [.fail 0 ["rear"], .timer, .fail 0 ["rear"],
      .timer, .fail 0 ["rear"], .timer, .fail 0 ["rear"]])).any (fun s =>
        s.connected ∧ s.inFlight = [] ∧ s.registry.flushTimer = false ∧
        s.registry.manifest "front" ≠ none ∧ s.registry.consumersOf "front" ≠ [] ∧
        s.acked "front" = {} ∧ s.concerned "front" = 0) = true := by
    decide +kernel
  obtain ⟨s, hrun, hs⟩ := (Option.any_eq_true _ _).mp hend
  obtain ⟨hconn, hflight, htimer, hman, hcons, hacked, hown⟩ := of_decide_eq_true hs
  refine ⟨s, hrun, hcons, hacked, hown, fun hsettled => ?_⟩
  have hfront := hsettled ⟨hconn, hflight, htimer⟩ "front" hman
  rw [hacked, hown] at hfront
  obtain h | ⟨h, -⟩ | h := hfront
  · exact absurd h (by simp)
  · exact hcons h
  · exact absurd h (by decide)

end Fjarr.Web.Selection
