/-
Fjarr.Desktop.Handles — what the backend's operations do to its tables.

A capture's place in the tables is its handle, its source and whether it
is a virtual monitor's (`owner`); everything else about it, and all that
goes on in the sources, leaves the tables alone (`Calm`). Within a layout
few operations do not: a capture starts or stops, a virtual monitor is
made or destroyed (`Move`). Every callback of the capability is a sequence
of these, after a new layout or around the helper's leaving at most
(`step_moves`), so what each of them keeps is kept by every run; the first
such fact is that a new handle is one nothing refers to yet (`Fresh`).
-/
import Fjarr.Desktop.Capability

namespace Fjarr.Desktop

open Lib List Option

/-- What a layout keeps of a monitor. -/
def Monitor.ident (m : Monitor) : MonitorId × String × MonitorKey := (m.id, m.wireId, m.key)

namespace Backend

/-- Whose capture is stored under a handle: its source, and whether it is
a virtual monitor we made. -/
def owner (b : Backend) (h : MonitorId) : Option (SourceId × Bool) :=
  (b.captures[h]?).map fun c => (c.source, c.isVirtual)

/-- The layout and the handles are as they were, except that connectors
of captures may have become known. -/
structure Kept (b b' : Backend) : Prop where
  monitors : b'.monitors.map Monitor.ident = b.monitors.map Monitor.ident
  wires : b'.idsByWire = b.idsByWire
  next : b'.nextMonitor = b.nextMonitor
  virtuals : ∀ (k : String) (h : MonitorId), b'.virtualByConnector[k]? = some h →
    b.virtualByConnector[k]? = some h ∨ (b.owner h).isSome = true

/-- And so are the captures. -/
structure Calm (b b' : Backend) : Prop extends Kept b b' where
  owner : ∀ h, b'.owner h = b.owner h

theorem send_eq (b : Backend) (m : Message) : ∃ sent, b.send m = { b with sent } := by
  unfold send
  split
  · exact ⟨_, rfl⟩
  · exact ⟨b.sent, rfl⟩

theorem send_tables (b : Backend) (m : Message) :
    (b.send m).captures = b.captures ∧ (b.send m).monitors = b.monitors ∧
      (b.send m).idsByWire = b.idsByWire ∧ (b.send m).nextMonitor = b.nextMonitor ∧
      (b.send m).virtualByConnector = b.virtualByConnector := by
  obtain ⟨sent, heq⟩ := send_eq b m
  rw [heq]
  exact ⟨rfl, rfl, rfl, rfl, rfl⟩

theorem sendStart_eq (b : Backend) (c : Capture) : ∃ sent, b.sendStart c = { b with sent } := by
  unfold sendStart
  split
  · exact ⟨b.sent, rfl⟩
  · exact send_eq b _

variable {b b' : Backend}

theorem Kept.of_eq (hmonitors : b'.monitors = b.monitors)
    (hwires : b'.idsByWire = b.idsByWire) (hnext : b'.nextMonitor = b.nextMonitor)
    (hvirtuals : b'.virtualByConnector = b.virtualByConnector) : Kept b b' :=
  ⟨by rw [hmonitors], hwires, hnext, fun _ _ hk => .inl (hvirtuals ▸ hk)⟩

namespace Calm

variable {b b' b'' : Backend}

theorem of_eq (hcaptures : b'.captures = b.captures) (hmonitors : b'.monitors = b.monitors)
    (hwires : b'.idsByWire = b.idsByWire) (hnext : b'.nextMonitor = b.nextMonitor)
    (hvirtuals : b'.virtualByConnector = b.virtualByConnector) : Calm b b' :=
  ⟨.of_eq hmonitors hwires hnext hvirtuals, fun h => by rw [Backend.owner, hcaptures]; rfl⟩

theorem refl (b : Backend) : Calm b b := of_eq rfl rfl rfl rfl rfl

theorem trans (h : Calm b b') (h' : Calm b' b'') : Calm b b'' where
  owner := fun i => (h'.owner i).trans (h.owner i)
  monitors := h'.monitors.trans h.monitors
  wires := h'.wires.trans h.wires
  next := h'.next.trans h.next
  virtuals := by
    intro k i hk
    rcases h'.virtuals k i hk with hk | howner
    · exact h.virtuals k i hk
    · exact .inr (h.owner i ▸ howner)

theorem send (b : Backend) (m : Message) : Calm b (b.send m) := by
  obtain ⟨sent, heq⟩ := send_eq b m
  rw [heq]
  exact of_eq rfl rfl rfl rfl rfl

theorem sendStart (b : Backend) (c : Capture) : Calm b (b.sendStart c) := by
  obtain ⟨sent, heq⟩ := sendStart_eq b c
  rw [heq]
  exact of_eq rfl rfl rfl rfl rfl

theorem setSource (b : Backend) (s : SourceId) (v : Source) : Calm b (b.setSource s v) :=
  of_eq rfl rfl rfl rfl rfl

theorem lost (b : Backend) (s : SourceId) (why : String) : Calm b (b.lost s why) :=
  setSource b s _

theorem insert {h : MonitorId} {c c' : Capture} (hc : b.captures[h]? = some c)
    (hsource : c'.source = c.source) (hvirtual : c'.isVirtual = c.isVirtual)
    (hcaptures : b'.captures = b.captures.insert h c') (hmonitors : b'.monitors = b.monitors)
    (hwires : b'.idsByWire = b.idsByWire) (hnext : b'.nextMonitor = b.nextMonitor)
    (hvirtuals : ∀ (k : String) (i : MonitorId), b'.virtualByConnector[k]? = some i →
      b.virtualByConnector[k]? = some i ∨ i = h) : Calm b b' := by
  refine ⟨⟨by rw [hmonitors], hwires, hnext, fun k i hk => ?_⟩, fun i => ?_⟩
  · refine (hvirtuals k i hk).imp_right ?_
    rintro rfl
    rw [Backend.owner, hc]
    rfl
  rw [Backend.owner, Backend.owner, hcaptures, Maps.get?_insert]
  split
  · rename_i hsame
    rw [hsame, hc, map_some, map_some, hsource, hvirtual]
  · rfl

theorem again {h : MonitorId} {c c' : Capture} (hc : b.captures[h]? = some c)
    (hsource : c'.source = c.source) (hvirtual : c'.isVirtual = c.isVirtual) :
    Calm b (b.again h c') := by
  unfold Backend.again
  obtain ⟨sent, heq⟩ := send_eq b (.stopCapture c'.id)
  rw [heq]
  refine trans ?_ (sendStart _ _)
  have hkept : ({ c' with id := b.nextId } : Capture).source = c.source := hsource
  exact insert hc hkept hvirtual rfl rfl rfl rfl fun k i hk => .inl hk

variable (b : Backend)

theorem restartCapture (h : MonitorId) : Calm b (b.restartCapture h).1 := by
  unfold Backend.restartCapture
  split
  · exact refl b
  rename_i c hc
  split
  · exact refl b
  split
  · exact refl b
  have hagain : Calm b ({ b with embedded := b.embedded.insert h }.again h
      { c with restarts := c.restarts + 1, cursor := "embedded" }) := by
    refine trans ?_ (again (c := c) hc rfl rfl)
    exact of_eq rfl rfl rfl rfl rfl
  split
  · refine ⟨⟨?_, hagain.wires, hagain.next, hagain.virtuals⟩, hagain.owner⟩
    rw [← hagain.monitors]
    rw [List.map_map]
    refine map_congr_left fun m _ => ?_
    show Monitor.ident (if m.id = h then { m with cursorInVideo := true } else m) = m.ident
    split <;> rfl
  · exact hagain

theorem restartForMemory (h : MonitorId) : Calm b (b.restartForMemory h) := by
  unfold Backend.restartForMemory
  split
  · exact refl b
  rename_i c hc
  split
  · exact refl b
  · exact again hc rfl rfl

theorem fallBackToShm (h : MonitorId) (why : String) :
    Calm b (b.fallBackToShm h why) := by
  unfold Backend.fallBackToShm
  split
  · exact refl b
  rename_i c hc
  split
  · exact refl b
  · exact again hc rfl rfl

theorem startWaiting (l : List (MonitorId × Capture)) :
    Calm b (b.startWaiting l) := by
  induction l generalizing b with
  | nil => exact refl b
  | cons x l ih =>
    obtain ⟨h, c⟩ := x
    rw [Backend.startWaiting]
    split
    · exact (sendStart b c).trans (ih _)
    · exact ih b

theorem captureStarted (id : Nat) (linked : Bool) (l : List (MonitorId × Capture)) :
    Calm b (b.captureStarted id linked l) := by
  induction l generalizing b with
  | nil => exact refl b
  | cons x l ih =>
    obtain ⟨h, c⟩ := x
    rw [Backend.captureStarted]
    refine trans ?_ (ih _)
    split
    · split
      · exact setSource b _ _
      · exact lost b _ _
    · exact refl b

theorem virtualConnector (id : Nat) (connector : String)
    (l : List (MonitorId × Capture))
    (hl : ∀ h c, (h, c) ∈ l → b.owner h = some (c.source, c.isVirtual)) :
    Calm b (b.virtualConnector id connector l) := by
  induction l generalizing b with
  | nil => exact refl b
  | cons x l ih =>
    obtain ⟨h, c⟩ := x
    rw [Backend.virtualConnector]
    have hfirst : Calm b (if c.id = id && c.isVirtual then
        { b with
          captures := b.captures.insert h { c with connector }
          virtualByConnector := b.virtualByConnector.insert connector h }
        else b) := by
      split
      · have howner := hl h c mem_cons_self
        rw [Backend.owner, map_eq_some_iff] at howner
        obtain ⟨c0, hc0, heq⟩ := howner
        obtain ⟨hsource, hvirtual⟩ := Prod.mk.inj heq
        have hkept : ({ c with connector } : Capture).source = c0.source := hsource.symm
        refine insert hc0 hkept hvirtual.symm rfl rfl rfl rfl fun k i hk => ?_
        exact (Maps.of_get?_insert hk).symm.imp And.right And.right
      · exact refl b
    refine hfirst.trans (ih _ fun h' c' hmem => ?_)
    rw [hfirst.owner]
    exact hl h' c' (mem_cons_of_mem _ hmem)

end Calm

/-! ## Starting and stopping -/

theorem owner_insert {h : MonitorId} {c : Capture}
    (hb : b'.captures = b.captures.insert h c) (i : MonitorId) :
    b'.owner i = if i = h then some (c.source, c.isVirtual) else b.owner i := by
  rw [owner, hb, Maps.get?_insert]
  split <;> rfl

theorem owner_erase {h : MonitorId} (hb : b'.captures = b.captures.erase h)
    (i : MonitorId) : b'.owner i = if i = h then none else b.owner i := by
  rw [owner, hb, Maps.get?_erase]
  split <;> rfl

/-- Where `start_capture` puts a capture: nowhere for a virtual monitor of
ours or a monitor that is not in the layout, else under the handle. -/
theorem startCapture_cases (b : Backend) (h : MonitorId) (cursorInVideo : Bool) :
    (∃ s, b.owner h = some (s, true) ∧ b.startCapture h cursorInVideo = (b, some s)) ∨
    ((∀ s, b.owner h ≠ some (s, true)) ∧ b.find h = none ∧
      b.startCapture h cursorInVideo = (b, none)) ∨
    ((∀ s, b.owner h ≠ some (s, true)) ∧ (b.find h).isSome = true ∧
      Kept b (b.startCapture h cursorInVideo).1 ∧
      ∃ s, (b.startCapture h cursorInVideo).2 = some s ∧
        ∀ i, (b.startCapture h cursorInVideo).1.owner i =
          if i = h then some (s, false) else b.owner i) := by
  cases hv : (b.captures[h]?).filter Capture.isVirtual with
  | some c =>
    obtain ⟨hc, hvirtual⟩ := filter_eq_some_iff.mp hv
    refine .inl ⟨c.source, ?_, ?_⟩
    · rw [owner, hc, map_some, hvirtual]
    · rw [startCapture, hv]
  | none =>
    have hnot : ∀ s, b.owner h ≠ some (s, true) := by
      intro s howner
      obtain ⟨c, hc, heq⟩ := map_eq_some_iff.mp howner
      rw [hc, filter_some, (Prod.mk.inj heq).2] at hv
      cases hv
    cases hfind : b.find h with
    | none =>
      refine .inr (.inl ⟨hnot, rfl, ?_⟩)
      rw [startCapture, hv, hfind]
    | some m =>
      refine .inr (.inr ⟨hnot, rfl, ?_⟩)
      obtain ⟨c, sources, nextSource, hentry, hvirtual⟩ : ∃ c sources nextSource,
          b.captureEntry h = ({ b with sources, nextSource }, c) ∧ c.isVirtual = false := by
        unfold captureEntry
        cases hc : b.captures[h]? with
        | some c =>
          refine ⟨c, b.sources, b.nextSource, rfl, ?_⟩
          rw [hc, filter_some] at hv
          by_contra hvirtual
          rw [Bool.not_eq_false] at hvirtual
          rw [hvirtual] at hv
          cases hv
        | none => exact ⟨_, _, _, rfl, rfl⟩
      simp only [startCapture, hv, hfind, hentry]
      obtain ⟨sent, heq⟩ := sendStart_eq { b with
        sources, nextSource
        nextId := b.nextId + 1
        captures := b.captures.insert h { c with
          fallback := ""
          id := b.nextId
          connector := m.key.connector
          cursor := if cursorInVideo || b.embedded.contains h then "embedded" else "metadata" } }
        { c with
          fallback := ""
          id := b.nextId
          connector := m.key.connector
          cursor := if cursorInVideo || b.embedded.contains h then "embedded" else "metadata" }
      rw [heq]
      refine ⟨.of_eq rfl rfl rfl rfl, c.source, rfl, fun i => ?_⟩
      rw [owner_insert (b := b) rfl, hvirtual]

/-- Nothing is taken out of a backend that has nothing to take out. -/
theorem unchanged_spec {h : MonitorId} {keep : SourceId × Bool → Bool}
    (hkeep : (b.owner h).filter keep = b.owner h) :
    Kept b b ∧ ∀ i, b.owner i = if i = h then (b.owner h).filter keep else b.owner i := by
  refine ⟨(Calm.refl b).toKept, fun i => ?_⟩
  split
  · rename_i hsame
    rw [hsame, hkeep]
  · rfl

/-- `stop_capture` takes a capture out, unless it is a virtual monitor's. -/
theorem stopCapture_spec (b : Backend) (h : MonitorId) :
    Kept b (b.stopCapture h) ∧ ∀ i, (b.stopCapture h).owner i =
      if i = h then (b.owner h).filter Prod.snd else b.owner i := by
  unfold stopCapture
  cases hc : b.captures[h]? with
  | none => exact unchanged_spec (by rw [owner, hc]; rfl)
  | some c =>
    have howner : b.owner h = some (c.source, c.isVirtual) := by
      rw [owner, hc]
      rfl
    dsimp only
    split
    · rename_i hvirtual
      exact unchanged_spec (by rw [howner, filter_some, hvirtual]; rfl)
    rename_i hvirtual
    have hvirtual : c.isVirtual = false := Bool.not_eq_true _ ▸ hvirtual
    obtain ⟨sent, heq⟩ := send_eq b (.stopCapture c.id)
    rw [heq]
    refine ⟨.of_eq rfl rfl rfl rfl, fun i => ?_⟩
    rw [owner_erase (b := b) rfl, howner, filter_some, hvirtual]
    rfl

theorem createVirtualMonitor_spec (b : Backend) (width height : Int) :
    b.createVirtualMonitor width height = (b, none) ∨
    ((b.createVirtualMonitor width height).2 = some b.nextMonitor ∧
      (b.createVirtualMonitor width height).1.monitors = b.monitors ∧
      (b.createVirtualMonitor width height).1.idsByWire = b.idsByWire ∧
      (b.createVirtualMonitor width height).1.nextMonitor = b.nextMonitor + 1 ∧
      (b.createVirtualMonitor width height).1.virtualByConnector = b.virtualByConnector ∧
      ∃ s, ∀ i, (b.createVirtualMonitor width height).1.owner i =
        if i = b.nextMonitor then some (s, true) else b.owner i) := by
  unfold createVirtualMonitor
  split
  · exact .inl rfl
  right
  obtain ⟨hcaptures, hmonitors, hwires, hnext, hvirtuals⟩ := send_tables { b with
    sources := Function.update b.sources b.nextSource {}
    nextSource := b.nextSource + 1
    nextMonitor := b.nextMonitor + 1
    nextId := b.nextId + 1
    captures := b.captures.insert b.nextMonitor
      { id := b.nextId, source := b.nextSource, cursor := "metadata", isVirtual := true } }
    (.addVirtual b.nextId width height "metadata")
  exact ⟨rfl, hmonitors, hwires, hnext, hvirtuals, b.nextSource,
    fun i => owner_insert (b := b) hcaptures i⟩

theorem destroyVirtualMonitor_spec (b : Backend) (h : MonitorId) :
    Kept b (b.destroyVirtualMonitor h) ∧ ∀ i, (b.destroyVirtualMonitor h).owner i =
      if i = h then (b.owner h).filter (fun o => !o.2) else b.owner i := by
  unfold destroyVirtualMonitor
  cases hc : b.captures[h]? with
  | none => exact unchanged_spec (by rw [owner, hc]; rfl)
  | some c =>
    have howner : b.owner h = some (c.source, c.isVirtual) := by
      rw [owner, hc]
      rfl
    dsimp only
    split
    · rename_i hvirtual
      exact unchanged_spec (by rw [howner, filter_some, hvirtual]; rfl)
    rename_i hvirtual
    have hvirtual : c.isVirtual = true := by simpa using hvirtual
    obtain ⟨sent, heq⟩ := send_eq b (.stopCapture c.id)
    rw [heq]
    refine ⟨⟨rfl, rfl, rfl, fun k i hk => .inl ?_⟩, fun i => ?_⟩
    · have hk : (if c.connector = "" then b.virtualByConnector
          else b.virtualByConnector.erase c.connector)[k]? = some i := hk
      split at hk
      · exact hk
      · exact (Maps.of_get?_erase hk).2
    · rw [owner_erase (b := b) rfl, howner, filter_some, hvirtual]
      rfl

/-! ## The layout -/

theorem placeMonitors_eq (b : Backend) (l : List (Entry × String)) :
    ∃ idsByWire nextMonitor, (b.placeMonitors l).1 = { b with idsByWire, nextMonitor } := by
  induction l generalizing b with
  | nil => exact ⟨b.idsByWire, b.nextMonitor, rfl⟩
  | cons x l ih =>
    obtain ⟨e, wire⟩ := x
    obtain ⟨idsByWire, nextMonitor, heq⟩ := ih (b.placeMonitor e wire).1
    exact ⟨idsByWire, nextMonitor, heq⟩

theorem mem_placeMonitors_cons {e : Entry} {wire : String}
    {l : List (Entry × String)} {m : Monitor} : m ∈ (b.placeMonitors ((e, wire) :: l)).2 ↔
      m = (b.placeMonitor e wire).2 ∨ m ∈ ((b.placeMonitor e wire).1.placeMonitors l).2 :=
  mem_cons

theorem nextMonitor_le_placeMonitor (b : Backend) (e : Entry) (wire : String) :
    b.nextMonitor ≤ (b.placeMonitor e wire).1.nextMonitor := by
  show b.nextMonitor ≤
    if (b.knownHandle e.key wire).isNone then b.nextMonitor + 1 else b.nextMonitor
  split
  · exact Nat.le_succ _
  · exact Nat.le_refl _

theorem knownHandle_placeMonitor (b : Backend) (e : Entry) (wire : String) (key : MonitorKey)
    (wire' : String) : (b.placeMonitor e wire).1.knownHandle key wire' = b.knownHandle key wire' ∨
      wire' = wire ∧ (b.placeMonitor e wire).1.knownHandle key wire' =
        some (b.placeMonitor e wire).2.id := by
  have hids : (b.placeMonitor e wire).1.idsByWire =
      b.idsByWire.insert wire (b.placeMonitor e wire).2.id := rfl
  have hvirtual : (b.placeMonitor e wire).1.virtualByConnector = b.virtualByConnector := rfl
  unfold knownHandle
  rw [hids, hvirtual]
  cases if key.isVirtual then b.virtualByConnector[key.connector]? else none with
  | some v => exact .inl rfl
  | none =>
    dsimp only
    rw [Maps.get?_insert]
    split
    · rename_i hsame
      exact .inr ⟨hsame, rfl⟩
    · exact .inl rfl

/-- Where a placed monitor's handle comes from: an entry with its wire id
was known under it, or none was and it was drawn for one. -/
theorem mem_placeMonitors {l : List (Entry × String)} {m : Monitor}
    (hm : m ∈ (b.placeMonitors l).2) : ∃ e, (e, m.wireId) ∈ l ∧
      (b.knownHandle e.key m.wireId = some m.id ∨
        b.knownHandle e.key m.wireId = none ∧ b.nextMonitor ≤ m.id) := by
  induction l generalizing b with
  | nil => cases hm
  | cons x l ih =>
    obtain ⟨e, wire⟩ := x
    have hfirst : b.knownHandle e.key wire = some (b.placeMonitor e wire).2.id ∨
        b.knownHandle e.key wire = none ∧ b.nextMonitor ≤ (b.placeMonitor e wire).2.id := by
      unfold placeMonitor
      cases b.knownHandle e.key wire with
      | some h => exact .inl rfl
      | none => exact .inr ⟨rfl, Nat.le_refl _⟩
    rcases mem_placeMonitors_cons.mp hm with rfl | hm
    · exact ⟨e, mem_cons_self, hfirst⟩
    obtain ⟨e', hmem, hknown⟩ := ih hm
    rcases knownHandle_placeMonitor b e wire e'.key m.wireId with hsame | ⟨hwire, hnew⟩
    · rw [hsame] at hknown
      exact ⟨e', mem_cons_of_mem _ hmem,
        hknown.imp_right fun h => ⟨h.1, (b.nextMonitor_le_placeMonitor e wire).trans h.2⟩⟩
    rcases hknown with hknown | hknown
    · rw [hnew, some.injEq] at hknown
      rw [hwire, ← hknown]
      exact ⟨e, mem_cons_self, hfirst⟩
    · rw [hnew] at hknown
      exact absurd hknown.1 (by simp)

/-- The layout of a `monitors` message is there. -/
def place (b : Backend) (list : List Entry) : Backend :=
  { (b.placeMonitors (list.zip (entryWires list))).1 with
    monitors := (b.placeMonitors (list.zip (entryWires list))).2 }

theorem place_eq (b : Backend) (list : List Entry) : ∃ idsByWire nextMonitor monitors,
    b.place list = { b with idsByWire, nextMonitor, monitors } := by
  obtain ⟨idsByWire, nextMonitor, heq⟩ := placeMonitors_eq b (list.zip (entryWires list))
  refine ⟨idsByWire, nextMonitor, (b.placeMonitors (list.zip (entryWires list))).2, ?_⟩
  rw [place, heq]

theorem setMonitors_eq (b : Backend) (list : List Entry) :
    b.setMonitors list = (b.place list).startWaiting (b.place list).captures.toList := rfl

/-- What is left of the tables when the helper leaves. -/
def leave (b : Backend) : Backend :=
  { b with
    captures := b.captures.filter fun _ c => !c.isVirtual
    virtualByConnector := {}
    monitors := [] }

/-! ## Moves -/

/-- The operations that change the tables within a layout. -/
inductive Move : Backend → Backend → Prop
  | calm {b b' : Backend} (h : Calm b b') : Move b b'
  | start (b : Backend) (h : MonitorId) (cursorInVideo : Bool) :
      Move b (b.startCapture h cursorInVideo).1
  | stop (b : Backend) (h : MonitorId) : Move b (b.stopCapture h)
  | create (b : Backend) (width height : Int) : Move b (b.createVirtualMonitor width height).1
  | destroy (b : Backend) (h : MonitorId) : Move b (b.destroyVirtualMonitor h)

/-- A sequence of moves. -/
abbrev Moves : Backend → Backend → Prop := Relation.ReflTransGen Move

theorem Calm.moves (h : Calm b b') : Moves b b' := .single (.calm h)

theorem Move.layout (h : Move b b') :
    b'.monitors.map Monitor.ident = b.monitors.map Monitor.ident ∧ b'.idsByWire = b.idsByWire := by
  cases h with
  | calm h => exact ⟨h.monitors, h.wires⟩
  | start h cursorInVideo =>
    rcases startCapture_cases b h cursorInVideo with ⟨s, -, heq⟩ | ⟨-, -, heq⟩ | ⟨-, -, hkept, -⟩
    · rw [heq]
      exact ⟨rfl, rfl⟩
    · rw [heq]
      exact ⟨rfl, rfl⟩
    · exact ⟨hkept.monitors, hkept.wires⟩
  | stop h =>
    obtain ⟨hkept, -⟩ := stopCapture_spec b h
    exact ⟨hkept.monitors, hkept.wires⟩
  | create width height =>
    rcases createVirtualMonitor_spec b width height with heq | ⟨-, hmonitors, hwires, -⟩
    · rw [heq]
      exact ⟨rfl, rfl⟩
    · exact ⟨by rw [hmonitors], hwires⟩
  | destroy h =>
    obtain ⟨hkept, -⟩ := destroyVirtualMonitor_spec b h
    exact ⟨hkept.monitors, hkept.wires⟩

theorem Moves.layout (h : Moves b b') :
    b'.monitors.map Monitor.ident = b.monitors.map Monitor.ident ∧ b'.idsByWire = b.idsByWire := by
  induction h with
  | refl => exact ⟨rfl, rfl⟩
  | tail _ hmove ih => exact ⟨hmove.layout.1.trans ih.1, hmove.layout.2.trans ih.2⟩

/-! ## Handles in use -/

/-- Every handle the tables mention was drawn. -/
structure Fresh (b : Backend) : Prop where
  captures : ∀ h, (b.owner h).isSome = true → h < b.nextMonitor
  monitors : ∀ m ∈ b.monitors, m.id < b.nextMonitor
  wires : ∀ (k : String) (h : MonitorId), b.idsByWire[k]? = some h → h < b.nextMonitor
  virtuals : ∀ (k : String) (h : MonitorId), b.virtualByConnector[k]? = some h → h < b.nextMonitor

namespace Fresh

variable {b b' : Backend}

variable (hb : b.Fresh)
include hb

theorem kept (h : Kept b b')
    (howner : ∀ i, (b'.owner i).isSome = true → i < b.nextMonitor) : b'.Fresh where
  captures := fun i hi => h.next ▸ howner i hi
  monitors := by
    intro m hm
    have hident : m.ident ∈ b.monitors.map Monitor.ident :=
      h.monitors ▸ List.mem_map_of_mem hm
    obtain ⟨m0, hm0, heq⟩ := List.mem_map.mp hident
    have hid : m0.id = m.id := congrArg Prod.fst heq
    rw [h.next, ← hid]
    exact hb.monitors m0 hm0
  wires := by
    rw [h.wires, h.next]
    exact hb.wires
  virtuals := by
    intro k i hk
    rw [h.next]
    exact (h.virtuals k i hk).elim (hb.virtuals k i) (hb.captures i)

theorem calm (h : Calm b b') : b'.Fresh :=
  hb.kept h.toKept fun i hi => hb.captures i (h.owner i ▸ hi)

theorem knownHandle_lt {key : MonitorKey} {wire : String} {h : MonitorId}
    (hknown : b.knownHandle key wire = some h) : h < b.nextMonitor := by
  unfold knownHandle at hknown
  split at hknown
  · rename_i v hv
    split at hv
    · exact some.inj hknown ▸ hb.virtuals _ v hv
    · cases hv
  · exact hb.wires _ h hknown

theorem placeMonitor (e : Entry) (wire : String) :
    (b.placeMonitor e wire).1.Fresh ∧
      (b.placeMonitor e wire).2.id < (b.placeMonitor e wire).1.nextMonitor := by
  obtain ⟨hnext, hid⟩ : b.nextMonitor ≤ (b.placeMonitor e wire).1.nextMonitor ∧
      (b.placeMonitor e wire).2.id < (b.placeMonitor e wire).1.nextMonitor := by
    unfold Backend.placeMonitor
    cases hknown : b.knownHandle e.key wire with
    | some h => exact ⟨Nat.le_refl _, hb.knownHandle_lt hknown⟩
    | none => exact ⟨Nat.le_succ _, Nat.lt_succ_self _⟩
  refine ⟨⟨fun i hi => ?_, fun m hm => ?_, fun k i hk => ?_, fun k i hk => ?_⟩, hid⟩
  · exact (hb.captures i hi).trans_le hnext
  · exact (hb.monitors m hm).trans_le hnext
  · have hk : (b.idsByWire.insert wire (b.placeMonitor e wire).2.id)[k]? = some i := hk
    obtain ⟨-, rfl⟩ | ⟨-, hk⟩ := Maps.of_get?_insert hk
    · exact hid
    · exact (hb.wires k i hk).trans_le hnext
  · exact (hb.virtuals k i hk).trans_le hnext

theorem placeMonitors (l : List (Entry × String)) :
    (b.placeMonitors l).1.Fresh ∧ b.nextMonitor ≤ (b.placeMonitors l).1.nextMonitor ∧
      ∀ m ∈ (b.placeMonitors l).2, m.id < (b.placeMonitors l).1.nextMonitor := by
  induction l generalizing b with
  | nil => exact ⟨hb, Nat.le_refl _, nofun⟩
  | cons x l ih =>
    obtain ⟨e, wire⟩ := x
    obtain ⟨hfirst, hid⟩ := hb.placeMonitor e wire
    obtain ⟨hrest, hnext, hids⟩ := ih hfirst
    refine ⟨hrest, (b.nextMonitor_le_placeMonitor e wire).trans hnext, fun m hm => ?_⟩
    rcases mem_placeMonitors_cons.mp hm with rfl | hm
    · exact hid.trans_le hnext
    · exact hids m hm

theorem place (list : List Entry) : (b.place list).Fresh := by
  obtain ⟨hrest, -, hids⟩ := hb.placeMonitors (list.zip (entryWires list))
  exact ⟨hrest.captures, hids, hrest.wires, hrest.virtuals⟩

theorem start (h : MonitorId) (cursorInVideo : Bool) :
    (b.startCapture h cursorInVideo).1.Fresh := by
  rcases startCapture_cases b h cursorInVideo with ⟨s, -, heq⟩ | ⟨-, -, heq⟩ |
    ⟨-, hfind, hkept, s, -, howner⟩
  · rw [heq]
    exact hb
  · rw [heq]
    exact hb
  refine hb.kept hkept fun i hi => ?_
  rw [howner] at hi
  split at hi
  · rename_i hsame
    obtain ⟨m, hm⟩ := isSome_iff_exists.mp hfind
    have hid : m.id = h := by simpa using find?_some hm
    rw [hsame, ← hid]
    exact hb.monitors m (mem_of_find?_eq_some hm)
  · exact hb.captures i hi

theorem stop (h : MonitorId) : (b.stopCapture h).Fresh := by
  obtain ⟨hkept, howner⟩ := stopCapture_spec b h
  refine hb.kept hkept fun i hi => hb.captures i ?_
  rw [howner] at hi
  split at hi
  · rename_i hsame
    rw [hsame]
    exact isSome_of_isSome_filter _ _ hi
  · exact hi

theorem destroy (h : MonitorId) : (b.destroyVirtualMonitor h).Fresh := by
  obtain ⟨hkept, howner⟩ := destroyVirtualMonitor_spec b h
  refine hb.kept hkept fun i hi => hb.captures i ?_
  rw [howner] at hi
  split at hi
  · rename_i hsame
    rw [hsame]
    exact isSome_of_isSome_filter _ _ hi
  · exact hi

theorem create (width height : Int) :
    (b.createVirtualMonitor width height).1.Fresh := by
  rcases createVirtualMonitor_spec b width height with heq |
    ⟨-, hmonitors, hwires, hnext, hvirtuals, s, howner⟩
  · rw [heq]
    exact hb
  refine ⟨fun i hi => ?_, fun m hm => ?_, fun k i hk => ?_, fun k i hk => ?_⟩
  · rw [howner] at hi
    rw [hnext]
    split at hi
    · rename_i hsame
      exact hsame ▸ Nat.lt_succ_self _
    · exact Nat.lt_succ_of_lt (hb.captures i hi)
  · rw [hnext]
    exact Nat.lt_succ_of_lt (hb.monitors m (hmonitors ▸ hm))
  · rw [hnext]
    exact Nat.lt_succ_of_lt (hb.wires k i (hwires ▸ hk))
  · rw [hnext]
    exact Nat.lt_succ_of_lt (hb.virtuals k i (hvirtuals ▸ hk))

theorem leave : b.leave.Fresh where
  captures := by
    intro h hh
    refine hb.captures h ?_
    rw [owner, isSome_map] at hh ⊢
    have hh : (b.captures.filter fun _ c => !c.isVirtual)[h]?.isSome = true := hh
    rw [← Std.ExtTreeMap.mem_iff_isSome_getElem?] at hh ⊢
    exact Std.ExtTreeMap.mem_of_mem_filter hh
  monitors := nofun
  wires := hb.wires
  virtuals := by
    intro k h hk
    have hk : (∅ : Std.ExtTreeMap String MonitorId)[k]? = some h := hk
    simp at hk

theorem move (h : Move b b') : b'.Fresh := by
  cases h with
  | calm h => exact hb.calm h
  | start h cursorInVideo => exact hb.start h cursorInVideo
  | stop h => exact hb.stop h
  | create width height => exact hb.create width height
  | destroy h => exact hb.destroy h

theorem moves (h : Moves b b') : b'.Fresh := by
  induction h with
  | refl => exact hb
  | tail _ hmove ih => exact ih.move hmove

end Fresh

end Backend

/-! ## Every callback is a sequence of moves -/

open Backend

namespace World

section

variable (w : World)

theorem answer_backend (id : SessionId) (msg : Call) (r : Reply) :
    (w.answer id msg r).backend = w.backend := by
  unfold answer
  split <;> rfl

theorem answerAdds_backend (ms : List Monitor) :
    (w.answerAdds ms).backend = w.backend := by
  induction ms generalizing w with
  | nil => rfl
  | cons m ms ih =>
    rw [answerAdds]
    split
    · exact ih w
    rw [ih]
    split <;> rfl

theorem onCaptureLost_backend (monitor : MonitorId) (why : CaptureLost) :
    (w.onCaptureLost monitor why).backend = w.backend := by
  unfold onCaptureLost
  split
  · rfl
  split
  · rfl
  · dsimp only
    split <;> rfl

theorem onSessionChanged_backend (running : Bool) :
    (w.onSessionChanged running).backend = w.backend := by
  unfold onSessionChanged
  split <;> rfl

theorem recapture_moves (wires : List String) :
    Moves w.backend (w.recapture wires).backend := by
  induction wires generalizing w with
  | nil => exact .refl
  | cons wire wires ih =>
    rw [recapture]
    split
    · exact ih w
    rename_i sc _
    refine Relation.ReflTransGen.trans ?_ (ih _)
    exact .head (.stop _ sc.monitor.id) (.single (.start _ sc.monitor.id false))

theorem resume_moves : Moves w.backend w.resume.backend := by
  unfold resume
  split
  · exact .refl
  · exact recapture_moves w _

theorem dropGone_moves (present : List String) (l : List (String × Screen)) :
    Moves w.backend (w.dropGone present l).backend := by
  induction l generalizing w with
  | nil => exact .refl
  | cons x l ih =>
    obtain ⟨wire, sc⟩ := x
    rw [dropGone]
    split
    · exact ih w
    · refine Relation.ReflTransGen.trans ?_ (ih _)
      exact .single (.stop _ sc.monitor.id)

theorem addNew_moves (ms : List Monitor) :
    Moves w.backend (w.addNew ms).backend := by
  induction ms generalizing w with
  | nil => exact .refl
  | cons m ms ih =>
    rw [addNew]
    split
    · refine Relation.ReflTransGen.trans ?_ (ih _)
      exact .refl
    · refine Relation.ReflTransGen.trans ?_ (ih _)
      exact .single (.start _ m.id false)

theorem onMonitors_backend (ms : List Monitor) :
    (w.onMonitors ms).backend = (w.updateScreens ms).backend :=
  answerAdds_backend _ ms

theorem onMonitors_moves (ms : List Monitor) :
    Moves w.backend (w.onMonitors ms).backend := by
  rw [onMonitors_backend]
  exact (dropGone_moves w _ _).trans (addNew_moves _ ms)

theorem removeEach_moves (ms : List MonitorId) :
    Moves w.backend (w.removeEach ms).backend := by
  induction ms generalizing w with
  | nil => exact .refl
  | cons m ms ih =>
    refine Relation.ReflTransGen.trans ?_ (ih _)
    exact .single (.destroy _ m)

theorem sessionDetached_moves (id : SessionId) :
    Moves w.backend (w.sessionDetached id).backend := by
  unfold sessionDetached removeVirtuals
  split
  · exact .refl
  · exact removeEach_moves { w with sessions := w.sessions.erase id } _

theorem addMonitor_moves (id : SessionId) (msg : Call) (width height : Int) :
    Moves w.backend (w.addMonitor id msg width height).backend := by
  have hmove : Move w.backend (w.backend.createVirtualMonitor width height).1 :=
    .create _ width height
  unfold addMonitor
  split
  · rw [answer_backend]
  split
  · rw [answer_backend]
  split
  · rename_i backend heq
    rw [heq] at hmove
    rw [answer_backend]
    exact .single hmove
  rename_i backend m heq
  rw [heq] at hmove
  rw [answerAdds_backend]
  exact .single hmove

theorem addTimedOut_moves (m : MonitorId) :
    Moves w.backend (w.addTimedOut m).backend := by
  unfold addTimedOut
  split
  · exact .refl
  · split <;> exact .single (.destroy _ m)

theorem removeMonitor_moves (id : SessionId) (msg : Call) (wire : String) :
    Moves w.backend (w.removeMonitor id msg wire).backend := by
  unfold removeMonitor
  split
  · rw [answer_backend]
  rename_i mon _
  rw [answer_backend]
  exact .single (.destroy _ mon.id)

end

/-- Captures are lost one after the other. -/
inductive Loses : World → World → Prop
  | refl (w : World) : Loses w w
  | lose {w w' : World} (source : SourceId) (reason : String) (monitor : MonitorId)
      (why : CaptureLost) (h : Loses
        ({ w with backend := w.backend.lost source reason }.onCaptureLost monitor why) w') :
      Loses w w'

theorem Loses.sharingStopped (w : World) (l : List (MonitorId × Capture)) :
    Loses w (w.sharingStopped l) := by
  induction l generalizing w with
  | nil => exact .refl w
  | cons x l ih =>
    rw [World.sharingStopped]
    split
    · exact ih w
    · exact .lose _ _ _ _ (ih _)

theorem Loses.captureLost (w : World) (id : Nat) (gone : Bool) (l : List (MonitorId × Capture)) :
    Loses w (w.captureLost id gone l) := by
  induction l generalizing w with
  | nil => exact .refl w
  | cons x l ih =>
    rw [World.captureLost]
    split
    · exact .lose _ _ _ _ (ih _)
    · exact ih w

theorem Loses.loseAll (w : World) (l : List (MonitorId × Capture)) : Loses w (w.loseAll l) := by
  induction l generalizing w with
  | nil => exact .refl w
  | cons x l ih => exact .lose _ _ _ _ (ih _)

theorem Loses.calm {w w' : World} (h : Loses w w') : Calm w.backend w'.backend := by
  induction h with
  | refl w => exact .refl _
  | lose source reason monitor why _ ih =>
    refine Calm.trans ?_ ih
    rw [onCaptureLost_backend]
    exact .lost _ _ _

/-- What `drop_helper` has done when it reports the empty monitor set. -/
def afterLoss (w : World) : World :=
  { w with backend := { w.backend with connected := false, welcomed := false } }.loseAll
    w.backend.captures.toList

theorem dropHelper_backend (w : World) : (w.dropHelper).backend =
    if w.backend.connected then
      ({ w.afterLoss with backend := w.afterLoss.backend.leave }.onMonitors []).backend
    else w.backend := by
  unfold dropHelper
  cases w.backend.connected with
  | false => rfl
  | true =>
    rw [if_pos rfl, if_neg (by simp)]
    dsimp only
    split
    · exact onSessionChanged_backend _ false
    · rfl

theorem dropHelper_moves (w : World) : Moves w.backend w.dropHelper.backend ∨
    ∃ b, Moves w.backend b ∧ Moves b.leave w.dropHelper.backend := by
  rw [dropHelper_backend]
  split
  · refine .inr ⟨w.afterLoss.backend, Calm.moves ?_,
      onMonitors_moves { w.afterLoss with backend := w.afterLoss.backend.leave } []⟩
    refine Calm.trans ?_ (Loses.loseAll _ _).calm
    exact .of_eq rfl rfl rfl rfl rfl
  · exact .inl .refl

theorem setMonitors_moves (w : World) (list : List Entry) :
    Moves (w.backend.place list) (w.setMonitors list).backend := by
  refine Relation.ReflTransGen.trans ?_ (onMonitors_moves _ _)
  rw [setMonitors_eq]
  exact (Calm.startWaiting _ _).moves

theorem virtualConnector_calm (b : Backend) (id : Nat) (connector : String) :
    Calm b (b.virtualConnector id connector b.captures.toList) := by
  refine .virtualConnector b id connector _ fun h c hmem => ?_
  rw [Std.ExtTreeMap.mem_toList_iff_getElem?_eq_some] at hmem
  rw [owner, hmem]
  rfl

theorem handle_moves (w : World) (m : Helper) : Moves w.backend (w.handle m).backend ∨
    (∃ list, m = .monitors list ∧ Moves (w.backend.place list) (w.handle m).backend) ∨
    ∃ b, Moves w.backend b ∧ Moves b.leave (w.handle m).backend := by
  unfold handle
  split
  · split
    · have hsend : Moves w.backend (w.backend.send (.refuse ("this agent speaks " ++ protocol))) :=
        (Calm.send _ _).moves
      rcases dropHelper_moves { w with
        backend := w.backend.send (.refuse ("this agent speaks " ++ protocol)) } with h | ⟨b, h, h'⟩
      · exact .inl (hsend.trans h)
      · exact .inr (.inr ⟨b, hsend.trans h, h'⟩)
    rw [onSessionChanged_backend]
    refine .inl (Calm.trans ?_ (Calm.send _ _)).moves
    exact .of_eq rfl rfl rfl rfl rfl
  split
  · exact .inl .refl
  split
  · exact .inr (.inl ⟨_, rfl, setMonitors_moves w _⟩)
  · split
    · exact .inl (Calm.captureStarted _ _ _ _).moves
    · exact .inl .refl
  · exact .inl (Loses.captureLost w _ _ _).calm.moves
  · exact .inl (virtualConnector_calm _ _ _).moves
  · exact .inl (Loses.sharingStopped w _).calm.moves
  · exact .inl .refl

theorem onReader_moves (w : World) (s : SourceId) (monitor : MonitorId) (r : Reader) :
    Moves w.backend (w.onReader s monitor r).backend := by
  cases r with
  | memory => exact (Calm.setSource _ _ _).moves
  | stalled =>
    have hcalm := (Calm.restartCapture w.backend monitor).moves
    rw [onReader]
    dsimp only
    split
    · refine Relation.ReflTransGen.trans ?_ (onMonitors_moves _ _)
      exact hcalm
    · exact hcalm
  | memoryChanged => exact (Calm.restartForMemory _ _).moves
  | fallback why => exact (Calm.fallBackToShm _ _ _).moves
  | failed why =>
    rw [onReader]
    split
    · exact .refl
    · exact (Calm.lost _ _ _).moves

end World

/-- What a callback does to the tables: moves, after a new layout or
around the helper's leaving at most. -/
theorem step_moves {w w' : World} {a : Act} (hstep : step w a = some w') :
    Moves w.backend w'.backend ∨
    (∃ list, a = .helper (.monitors list) ∧ Moves (w.backend.place list) w'.backend) ∨
    ∃ b, Moves w.backend b ∧ Moves b.leave w'.backend := by
  cases a with
  | attach id =>
    obtain ⟨-, rfl⟩ := guarded_not.mp hstep
    unfold World.sessionAttached
    dsimp only
    split <;> exact .inl .refl
  | detach id =>
    obtain ⟨-, rfl⟩ := guarded.mp hstep
    exact .inl (w.sessionDetached_moves id)
  | resumeSharing id msg =>
    obtain ⟨-, rfl⟩ := guarded.mp hstep
    rw [World.resumeSharing, World.answer_backend]
    exact .inl w.resume_moves
  | addMonitor id msg width height =>
    obtain ⟨-, rfl⟩ := guarded.mp hstep
    exact .inl (w.addMonitor_moves id msg width height)
  | removeMonitor id msg wire =>
    obtain ⟨-, rfl⟩ := guarded.mp hstep
    exact .inl (w.removeMonitor_moves id msg wire)
  | addTimedOut m =>
    obtain ⟨-, rfl⟩ := guarded.mp hstep
    exact .inl (w.addTimedOut_moves m)
  | connect =>
    obtain ⟨-, rfl⟩ := guarded_not.mp hstep
    refine .inl (Calm.moves ?_)
    exact .of_eq rfl rfl rfl rfl rfl
  | helper m =>
    obtain ⟨-, rfl⟩ := guarded.mp hstep
    rcases w.handle_moves m with h | ⟨list, hm, h⟩ | h
    · exact .inl h
    · exact .inr (.inl ⟨list, hm ▸ rfl, h⟩)
    · exact .inr (.inr h)
  | disconnect =>
    obtain ⟨-, rfl⟩ := guarded.mp hstep
    exact w.dropHelper_moves.imp_right .inr
  | reader s r =>
    simp only [step, map_eq_some_iff] at hstep
    obtain ⟨monitor, -, rfl⟩ := hstep
    exact .inl (w.onReader_moves s monitor r)

/-- In every state reached, a handle still to be drawn is in no table. -/
theorem fresh_of_reachable {w : World} (hw : system.Reachable w) : w.backend.Fresh := by
  refine system.invariant (P := fun w => w.backend.Fresh) ?_ (fun w a w' hb hstep => ?_) hw
  · refine ⟨fun h hh => ?_, fun m hm => (nomatch hm), fun k h hk => ?_, fun k h hk => ?_⟩
    · simp [system, owner] at hh
    · simp [system] at hk
    · simp [system] at hk
  rcases step_moves hstep with h | ⟨list, -, h⟩ | ⟨b, h, h'⟩
  · exact hb.moves h
  · exact (hb.place list).moves h
  · exact (hb.moves h).leave.moves h'

end Fjarr.Desktop
