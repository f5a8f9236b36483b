/-
Fjarr.Desktop.Tracks — whether a track shows the monitor it names.

A screen's wire id, the handle of its monitor and the source it feeds a
track from are kept in three places: the layout, the capability's screens
and the backend's captures. They agree (`Aligned`) as long as a layout
keeps each of our virtual monitors under the wire id it has and no virtual
monitor is destroyed while a screen shows it (`Steady`); then every screen
shows its monitor (`tracks_show_their_monitor`).

Wire ids of virtual monitors are positions in the layout. When an earlier
one leaves, the others move up, and since the capability diffs by wire id
a track then names one monitor and shows another (`renumbered_track`).
-/
import Fjarr.Desktop.Handles
import Fjarr.Desktop.Sharing

namespace Fjarr.Desktop

open Lib Backend List Option

/-! ## What is to hold -/

/-- The layout has the screen's monitor under its wire id, and the source
is that of the capture stored under the monitor's handle. -/
def Shown (b : Backend) (wire : String) (sc : Screen) : Prop :=
  (∃ m ∈ b.monitors, m.wireId = wire ∧ m.id = sc.monitor.id) ∧
    ∃ c, b.captures[sc.monitor.id]? = some c ∧ sc.source = some c.source

def World.Shows (w : World) : Prop :=
  ∀ (wire : String) (sc : Screen), w.screens[wire]? = some sc → Shown w.backend wire sc

/-- A virtual monitor in both layouts, known by its connector, has the
same wire id in both. -/
def KeepsWire (b b' : Backend) : Prop :=
  ∀ m ∈ b.monitors, ∀ m' ∈ b'.monitors, m.key.isVirtual = true → m'.key.isVirtual = true →
    m'.key.connector = m.key.connector → m'.wireId = m.wireId

/-! ## When it does -/

/-- The connectors of a layout's virtual monitors, in order. -/
def virtualsOf (keys : List MonitorKey) : List String :=
  (keys.filter MonitorKey.isVirtual).map MonitorKey.connector

/-- What is in both lists has the same position in both. -/
def InPlace (old new : List String) : Prop :=
  ∀ x ∈ new.zipIdx, ∀ y ∈ old.zipIdx, x.1 = y.1 → x.2 = y.2

instance (old new : List String) : Decidable (InPlace old new) := by
  unfold InPlace
  infer_instance

/-- The virtual monitors a request asks the backend to destroy. -/
def World.destroys (w : World) : Act → List MonitorId
  | .detach id => w.mine id
  | .removeMonitor id _ wire =>
    ((w.monitorFor wire).filter fun mon => mon.id ∈ w.mine id).toList.map Monitor.id
  | .addTimedOut m => [m]
  | _ => []

/-- A layout gives distinct wire ids, no two of its monitors are known
under one handle, one of our virtual monitors gets a screen's wire id only
if the screen is its own, and virtual monitors keep their places among the
virtual monitors. Anything else destroys no monitor a screen shows. -/
def Steady (w : World) : Act → Prop
  | .helper (.monitors list) =>
    (entryWires list).Nodup ∧
    ((list.zip (entryWires list)).filterMap fun x => w.backend.knownHandle x.1.key x.2).Nodup ∧
    (∀ x ∈ list.zip (entryWires list), x.1.key.isVirtual = true →
      ∀ h ∈ w.backend.virtualByConnector[x.1.key.connector]?, ∀ sc ∈ w.screens[x.2]?,
        sc.monitor.id = h) ∧
    InPlace (virtualsOf (w.backend.monitors.map Monitor.key)) (virtualsOf (list.map Entry.key))
  | a => ∀ x ∈ w.screens.toList, x.2.monitor.id ∉ w.destroys a

instance (w : World) (a : Act) : Decidable (Steady w a) := by
  unfold Steady
  split <;> infer_instance

/-- The connectors of a layout message are distinct. -/
def DistinctConnectors : Act → Prop
  | .helper (.monitors list) => (list.map fun e => e.key.connector).Nodup
  | _ => True

instance (a : Act) : Decidable (DistinctConnectors a) := by
  unfold DistinctConnectors
  split <;> infer_instance

/-! ## The three tables agree -/

/-- In the layout, wire ids and handles determine each other. -/
structure Placed (b : Backend) : Prop where
  ids : ∀ m ∈ b.monitors, ∀ m' ∈ b.monitors, m.id = m'.id → m.wireId = m'.wireId
  known : ∀ m ∈ b.monitors, b.idsByWire[m.wireId]? = some m.id

/-- The screen has the source of its monitor's capture. -/
def Fed (b : Backend) (sc : Screen) : Prop :=
  ∃ s v, b.owner sc.monitor.id = some (s, v) ∧ sc.source = some s

structure Aligned (b : Backend) (screens : Std.ExtTreeMap String Screen) : Prop
    extends Placed b where
  listed : ∀ (wire : String) (sc : Screen), screens[wire]? = some sc →
    ∃ m ∈ b.monitors, m.wireId = wire ∧ m.id = sc.monitor.id
  fed : ∀ (wire : String) (sc : Screen), screens[wire]? = some sc → Fed b sc

variable {b b' : Backend} {l : List (Entry × String)} {w w' : World} {a : Act}

open Monitor

theorem mem_of_layout
    (hlayout : b'.monitors.map Monitor.ident = b.monitors.map Monitor.ident) {m : Monitor}
    (hm : m ∈ b'.monitors) :
    ∃ m0 ∈ b.monitors, m0.id = m.id ∧ m0.wireId = m.wireId ∧ m0.key = m.key := by
  have hident : m.ident ∈ b.monitors.map ident := hlayout ▸ List.mem_map_of_mem hm
  obtain ⟨m0, hm0, heq⟩ := List.mem_map.mp hident
  obtain ⟨hid, hrest⟩ := Prod.mk.inj heq
  obtain ⟨hwire, hkey⟩ := Prod.mk.inj hrest
  exact ⟨m0, hm0, hid, hwire, hkey⟩

theorem Placed.layout (h : Placed b)
    (hlayout : b'.monitors.map Monitor.ident = b.monitors.map Monitor.ident)
    (hwires : b'.idsByWire = b.idsByWire) : Placed b' where
  ids := by
    intro m hm m' hm' heq
    obtain ⟨m0, hm0, hid, hwire, -⟩ := mem_of_layout hlayout hm
    obtain ⟨m0', hm0', hid', hwire', -⟩ := mem_of_layout hlayout hm'
    rw [← hwire, ← hwire']
    exact h.ids m0 hm0 m0' hm0' (hid.trans (heq.trans hid'.symm))
  known := by
    intro m hm
    obtain ⟨m0, hm0, hid, hwire, -⟩ := mem_of_layout hlayout hm
    rw [hwires, ← hwire, ← hid]
    exact h.known m0 hm0

theorem Placed.wires (h : Placed b) {m m' : Monitor} (hm : m ∈ b.monitors)
    (hm' : m' ∈ b.monitors) (hwire : m.wireId = m'.wireId) : m.id = m'.id := by
  have hknown := h.known m hm
  rw [hwire, h.known m' hm'] at hknown
  exact (some.inj hknown).symm

namespace Aligned

variable {b b' : Backend} {screens : Std.ExtTreeMap String Screen}

variable {wire : String} {sc : Screen}

variable (h : Aligned b screens)
include h

theorem shown (hsc : screens[wire]? = some sc) : Shown b wire sc := by
  refine ⟨h.listed wire sc hsc, ?_⟩
  obtain ⟨s, v, howner, hsource⟩ := h.fed wire sc hsc
  obtain ⟨c, hc, heq⟩ := map_eq_some_iff.mp howner
  refine ⟨c, hc, ?_⟩
  rw [hsource, ← (Prod.mk.inj heq).1]

theorem apart {wire' : String} {sc' : Screen}
    (hsc : screens[wire]? = some sc) (hsc' : screens[wire']? = some sc')
    (heq : sc'.monitor.id = sc.monitor.id) : wire' = wire := by
  obtain ⟨m, hm, rfl, hid⟩ := h.listed wire sc hsc
  obtain ⟨m', hm', rfl, hid'⟩ := h.listed wire' sc' hsc'
  exact h.ids m' hm' m hm (hid'.trans (heq.trans hid.symm))

/-- What keeps the layout and the shown captures keeps the agreement. -/
theorem kept (hlayout : b'.monitors.map Monitor.ident = b.monitors.map Monitor.ident)
    (hwires : b'.idsByWire = b.idsByWire)
    (howner : ∀ (wire : String) (sc : Screen), screens[wire]? = some sc →
      b'.owner sc.monitor.id = b.owner sc.monitor.id) : Aligned b' screens where
  toPlaced := h.toPlaced.layout hlayout hwires
  listed := by
    intro wire sc hsc
    obtain ⟨m, hm, hwire, hid⟩ := h.listed wire sc hsc
    obtain ⟨m', hm', hid', hwire', -⟩ := mem_of_layout hlayout.symm hm
    exact ⟨m', hm', hwire'.trans hwire, hid'.trans hid⟩
  fed := by
    intro wire sc hsc
    obtain ⟨s, v, hs, hsource⟩ := h.fed wire sc hsc
    exact ⟨s, v, (howner wire sc hsc).trans hs, hsource⟩

theorem calm (hcalm : Calm b b') : Aligned b' screens :=
  h.kept hcalm.monitors hcalm.wires fun _ sc _ => hcalm.owner sc.monitor.id

theorem insert (hlayout : b'.monitors.map Monitor.ident = b.monitors.map Monitor.ident)
    (hwires : b'.idsByWire = b.idsByWire)
    (hlisted : ∃ m ∈ b.monitors, m.wireId = wire ∧ m.id = sc.monitor.id) (hfed : Fed b' sc)
    (howner : ∀ i, i ≠ sc.monitor.id → b'.owner i = b.owner i) :
    Aligned b' (screens.insert wire sc) where
  toPlaced := h.toPlaced.layout hlayout hwires
  listed := by
    intro wire' sc' hsc'
    have hold : ∃ m ∈ b.monitors, m.wireId = wire' ∧ m.id = sc'.monitor.id := by
      obtain ⟨rfl, rfl⟩ | ⟨-, hsc'⟩ := Maps.of_get?_insert hsc'
      · exact hlisted
      · exact h.listed wire' sc' hsc'
    obtain ⟨m, hm, hwire, hid⟩ := hold
    obtain ⟨m', hm', hid', hwire', -⟩ := mem_of_layout hlayout.symm hm
    exact ⟨m', hm', hwire'.trans hwire, hid'.trans hid⟩
  fed := by
    intro wire' sc' hsc'
    obtain ⟨-, rfl⟩ | ⟨hne, hold⟩ := Maps.of_get?_insert hsc'
    · exact hfed
    obtain ⟨s, v, hs, hsource⟩ := h.fed wire' sc' hold
    refine ⟨s, v, (howner _ fun heq => hne ?_).trans hs, hsource⟩
    -- another wire id's monitor has another handle
    obtain ⟨m, hm, rfl, hid⟩ := hlisted
    obtain ⟨m', hm', rfl, hid'⟩ := h.listed wire' sc' hold
    exact h.ids m' hm' m hm (hid'.trans (heq.trans hid.symm))

end Aligned

/-! ## Captures of listed monitors -/

theorem find_isSome {h : MonitorId} (hm : ∃ m ∈ b.monitors, m.id = h) :
    (b.find h).isSome = true := by
  obtain ⟨m, hm, hid⟩ := hm
  exact find?_isSome.mpr ⟨m, hm, by simpa using hid⟩

theorem startCapture_listed {h : MonitorId} (hm : ∃ m ∈ b.monitors, m.id = h) :
    (∃ s v, (b.startCapture h false).1.owner h = some (s, v) ∧
      (b.startCapture h false).2 = some s) ∧
    ∀ i, i ≠ h → (b.startCapture h false).1.owner i = b.owner i := by
  rcases startCapture_cases b h false with ⟨s, howner, heq⟩ | ⟨-, hfind, -⟩ |
    ⟨-, -, -, s, hsource, howner⟩
  · rw [heq]
    exact ⟨⟨s, true, howner, rfl⟩, fun i _ => rfl⟩
  · have hsome := find_isSome hm
    rw [hfind] at hsome
    cases hsome
  refine ⟨⟨s, false, ?_, hsource⟩, fun i hi => ?_⟩
  · rw [howner, if_pos rfl]
  · rw [howner, if_neg hi]

namespace World

variable {w : World}

theorem recapture_aligned (h : Aligned w.backend w.screens) (wires : List String) :
    Aligned (w.recapture wires).backend (w.recapture wires).screens := by
  induction wires generalizing w with
  | nil => exact h
  | cons wire wires ih =>
    rw [recapture]
    split
    · exact ih h
    rename_i sc hsc
    refine ih ?_
    obtain ⟨m, hm, hwire, hid⟩ := h.listed wire sc hsc
    have hstop : Move w.backend (w.backend.stopCapture sc.monitor.id) := .stop _ _
    have hstart : Move (w.backend.stopCapture sc.monitor.id)
        ((w.backend.stopCapture sc.monitor.id).startCapture sc.monitor.id false).1 := .start _ _ _
    obtain ⟨m', hm', hid', -⟩ := mem_of_layout hstop.layout.1.symm hm
    obtain ⟨hfed, howner⟩ := startCapture_listed ⟨m', hm', hid'.trans hid⟩
    refine h.insert (hstart.layout.1.trans hstop.layout.1) (hstart.layout.2.trans hstop.layout.2)
      ⟨m, hm, hwire, hid⟩ hfed fun i hi => ?_
    rw [← (stopCapture_spec w.backend sc.monitor.id).2 i |>.trans (if_neg hi)]
    exact howner i hi

theorem addNew_aligned (h : Aligned w.backend w.screens) {ms : List Monitor}
    (hms : ∀ m ∈ ms, ∃ m0 ∈ w.backend.monitors, m0.id = m.id ∧ m0.wireId = m.wireId) :
    Aligned (w.addNew ms).backend (w.addNew ms).screens := by
  induction ms generalizing w with
  | nil => exact h
  | cons m ms ih =>
    obtain ⟨m0, hm0, hid, hwire⟩ := hms m mem_cons_self
    rw [addNew]
    split
    · rename_i sc hsc
      refine ih ?_ fun m' hm' => hms m' (mem_cons_of_mem _ hm')
      refine h.insert rfl rfl ⟨m0, hm0, hwire, hid⟩ ?_ fun _ _ => rfl
      -- the screen's monitor had this handle already
      obtain ⟨m1, hm1, hwire1, hid1⟩ := h.listed _ _ hsc
      obtain ⟨s, v, howner, hsource⟩ := h.fed _ _ hsc
      refine ⟨s, v, ?_, hsource⟩
      rw [← hid, h.wires hm0 hm1 (hwire.trans hwire1.symm), hid1]
      exact howner
    have hstart : Move w.backend (w.backend.startCapture m.id false).1 := .start _ _ _
    obtain ⟨hfed, howner⟩ := startCapture_listed ⟨m0, hm0, hid⟩
    refine ih ?_ fun m' hm' => ?_
    · exact h.insert hstart.layout.1 hstart.layout.2 ⟨m0, hm0, hwire, hid⟩ hfed howner
    obtain ⟨m1, hm1, hid1, hwire1⟩ := hms m' (mem_cons_of_mem _ hm')
    obtain ⟨m2, hm2, hid2, hwire2, -⟩ := mem_of_layout hstart.layout.1.symm hm1
    exact ⟨m2, hm2, hid2.trans hid1, hwire2.trans hwire1⟩

theorem dropGone_fed (present : List String) {l : List (String × Screen)}
    (hfed : ∀ (wire : String) (sc : Screen), w.screens[wire]? = some sc → Fed w.backend sc)
    (hl : ∀ x ∈ l, ∀ (wire : String) (sc : Screen), w.screens[wire]? = some sc →
      sc.monitor.id = x.2.monitor.id → wire = x.1) (wire : String) (sc : Screen)
    (hsc : (w.dropGone present l).screens[wire]? = some sc) :
    w.screens[wire]? = some sc ∧ Fed (w.dropGone present l).backend sc := by
  induction l generalizing w with
  | nil => exact ⟨hsc, hfed wire sc hsc⟩
  | cons x l ih =>
    obtain ⟨wire', sc'⟩ := x
    rw [dropGone] at hsc ⊢
    split at hsc
    · rename_i hin
      rw [if_pos hin]
      exact ih hfed (fun x hx => hl x (mem_cons_of_mem _ hx)) hsc
    rename_i hout
    rw [if_neg hout]
    have hof : ∀ (k : String) (sc : Screen), (w.screens.erase wire')[k]? = some sc →
        k ≠ wire' ∧ w.screens[k]? = some sc := fun _ _ => Maps.of_get?_erase
    obtain ⟨hsc, hrest⟩ := ih (w := { w with
        stopped := w.stopped.erase wire'
        backend := w.backend.stopCapture sc'.monitor.id
        screens := w.screens.erase wire' })
      (fun k sc hk => by
        obtain ⟨hne, hk⟩ := hof k sc hk
        obtain ⟨s, v, howner, hsource⟩ := hfed k sc hk
        refine ⟨s, v, ?_, hsource⟩
        rw [(stopCapture_spec w.backend sc'.monitor.id).2, if_neg]
        · exact howner
        · exact fun heq => hne (hl _ mem_cons_self k sc hk heq))
      (fun x hx k sc hk => hl x (mem_cons_of_mem _ hx) k sc (hof k sc hk).2) hsc
    exact ⟨(hof _ _ hsc).2, hrest⟩

/-- What `on_monitors` needs of the screens it finds: each has its
capture's source, no two are on one handle, and a screen whose wire id is
listed is that monitor's. -/
theorem updateScreens_aligned (hplaced : Placed w.backend)
    (hfed : ∀ (wire : String) (sc : Screen), w.screens[wire]? = some sc → Fed w.backend sc)
    (hapart : ∀ (wire wire' : String) (sc sc' : Screen), w.screens[wire]? = some sc →
      w.screens[wire']? = some sc' → sc'.monitor.id = sc.monitor.id → wire' = wire)
    (hmatch : ∀ m ∈ w.backend.monitors, ∀ sc, w.screens[m.wireId]? = some sc →
      sc.monitor.id = m.id) :
    Aligned (w.updateScreens w.backend.monitors).backend
      (w.updateScreens w.backend.monitors).screens := by
  obtain ⟨hlayout, hwires⟩ :=
    (dropGone_moves w (w.backend.monitors.map wireId) w.screens.toList).layout
  have hdrop := dropGone_fed (w.backend.monitors.map wireId) hfed
    (l := w.screens.toList) fun x hx wire sc hsc heq =>
      hapart x.1 wire x.2 sc (Std.ExtTreeMap.mem_toList_iff_getElem?_eq_some.mp hx) hsc heq
  obtain ⟨-, -, -, hscreens⟩ :=
    dropGone_spec w (w.backend.monitors.map wireId) w.screens.toList
  refine addNew_aligned ⟨hplaced.layout hlayout hwires, fun wire sc hsc => ?_,
    fun wire sc hsc => (hdrop wire sc hsc).2⟩ fun m hm => ?_
  · obtain ⟨hsc0, -⟩ := hdrop wire sc hsc
    have hin := (hscreens wire).mp
      (Std.ExtTreeMap.mem_iff_isSome_getElem?.mpr (by rw [hsc]; rfl))
    have hpresent : wire ∈ w.backend.monitors.map wireId := by
      by_contra hout
      refine hin.2 ⟨?_, hout⟩
      rw [Std.ExtTreeMap.map_fst_toList_eq_keys, Std.ExtTreeMap.mem_keys]
      exact hin.1
    obtain ⟨m, hm, rfl⟩ := List.mem_map.mp hpresent
    obtain ⟨m', hm', hid', hwire', -⟩ := mem_of_layout hlayout.symm hm
    exact ⟨m', hm', hwire', hid'.trans (hmatch m hm sc hsc0).symm⟩
  · obtain ⟨m', hm', hid', hwire', -⟩ := mem_of_layout hlayout.symm hm
    exact ⟨m', hm', hid', hwire'⟩

theorem onMonitors_screens (w : World) (ms : List Monitor) :
    (w.onMonitors ms).screens = (w.updateScreens ms).screens :=
  answerAdds_screens _ ms

theorem onMonitors_aligned (h : Aligned w.backend w.screens) :
    Aligned (w.onMonitors w.backend.monitors).backend (w.onMonitors w.backend.monitors).screens := by
  rw [onMonitors_backend, onMonitors_screens]
  refine updateScreens_aligned h.toPlaced h.fed (fun _ _ _ _ hsc hsc' heq => h.apart hsc hsc' heq)
    fun m hm sc hsc => ?_
  obtain ⟨m', hm', hwire, hid⟩ := h.listed _ _ hsc
  exact hid.symm.trans (h.wires hm' hm hwire)

end World

/-! ## A layout -/

theorem length_wireIdsFrom (set : List MonitorKey) (n : Nat) (l : List MonitorKey) :
    (wireIdsFrom set n l).length = l.length := by
  induction l generalizing n with
  | nil => rfl
  | cons k l ih =>
    rw [wireIdsFrom]
    split <;> rw [length_cons, ih, length_cons]

theorem length_entryWires (list : List Entry) : (entryWires list).length = list.length := by
  rw [entryWires, wireIds, length_wireIdsFrom, length_map]

theorem placeMonitors_idsByWire {wire : String}
    (hl : wire ∉ l.map Prod.snd) : (b.placeMonitors l).1.idsByWire[wire]? = b.idsByWire[wire]? := by
  induction l generalizing b with
  | nil => rfl
  | cons x l ih =>
    obtain ⟨e, wire'⟩ := x
    rw [map_cons, mem_cons, not_or] at hl
    refine (ih hl.2).trans ?_
    rw [Maps.get?_insert, if_neg hl.1]

theorem placeMonitors_known
    (hl : (l.map Prod.snd).Nodup) :
    ∀ m ∈ (b.placeMonitors l).2, (b.placeMonitors l).1.idsByWire[m.wireId]? = some m.id := by
  induction l generalizing b with
  | nil => exact fun m hm => (nomatch hm)
  | cons x l ih =>
    obtain ⟨e, wire⟩ := x
    rw [map_cons, nodup_cons] at hl
    intro m hm
    rcases mem_placeMonitors_cons.mp hm with rfl | hm
    · refine (placeMonitors_idsByWire (b := (b.placeMonitor e wire).1) hl.1).trans ?_
      show (b.idsByWire.insert wire (b.placeMonitor e wire).2.id)[wire]? = _
      rw [Maps.get?_insert, if_pos rfl]
    · exact ih hl.2 m hm

/-- With distinct wire ids and no two entries known under one handle, no
two placed monitors have one handle. -/
theorem placeMonitors_ids (hb : b.Fresh)
    (hl : (l.map Prod.snd).Nodup)
    (hknown : (l.filterMap fun x => b.knownHandle x.1.key x.2).Nodup) :
    ((b.placeMonitors l).2.map Monitor.id).Nodup := by
  induction l generalizing b with
  | nil => exact nodup_nil
  | cons x l ih =>
    obtain ⟨e, wire⟩ := x
    rw [map_cons, nodup_cons] at hl
    -- the entries after this one are known as before
    have hsame : ∀ x ∈ l, (b.placeMonitor e wire).1.knownHandle x.1.key x.2 =
        b.knownHandle x.1.key x.2 := by
      intro x hx
      refine (knownHandle_placeMonitor b e wire x.1.key x.2).resolve_right ?_
      rintro ⟨heq, -⟩
      exact hl.1 (List.mem_map.mpr ⟨x, hx, heq⟩)
    have hrest : (l.filterMap fun x => b.knownHandle x.1.key x.2).Nodup :=
      hknown.sublist ((sublist_cons_self _ _).filterMap _)
    show ((b.placeMonitor e wire).2 :: ((b.placeMonitor e wire).1.placeMonitors l).2 |>.map
      Monitor.id).Nodup
    rw [map_cons, nodup_cons]
    refine ⟨fun hmem => ?_, ih (hb.placeMonitor e wire).1 hl.2 ?_⟩
    · obtain ⟨m, hm, hid⟩ := List.mem_map.mp hmem
      obtain ⟨e', hin, hfrom⟩ := mem_placeMonitors hm
      have hidlt := (hb.placeMonitor e wire).2
      rcases hfrom with hold | ⟨-, hnew⟩
      · rw [hsame _ hin] at hold
        have hmlt := hb.knownHandle_lt hold
        cases hfirst : b.knownHandle e.key wire with
        | none =>
          have hdrawn : (b.placeMonitor e wire).2.id = b.nextMonitor := by
            show (b.knownHandle e.key wire).getD b.nextMonitor = _
            rw [hfirst]
            rfl
          exact absurd hmlt (by rw [hid, hdrawn]; exact Nat.lt_irrefl _)
        | some h =>
          have hgiven : (b.placeMonitor e wire).2.id = h := by
            show (b.knownHandle e.key wire).getD b.nextMonitor = _
            rw [hfirst]
            rfl
          have hcons : (((e, wire) :: l).filterMap fun x => b.knownHandle x.1.key x.2) =
              h :: l.filterMap fun x => b.knownHandle x.1.key x.2 :=
            filterMap_cons_some hfirst
          rw [hcons, nodup_cons] at hknown
          refine hknown.1 (mem_filterMap.mpr ⟨(e', m.wireId), hin, ?_⟩)
          rw [hold, hid, hgiven]
      · exact absurd hidlt (Nat.not_lt.mpr (hid ▸ hnew))
    · rw [filterMap_congr hsame]
      exact hrest

theorem placed_place (hb : b.Fresh) {list : List Entry}
    (hwires : (entryWires list).Nodup)
    (hknown : ((list.zip (entryWires list)).filterMap fun x =>
      b.knownHandle x.1.key x.2).Nodup) : Placed (b.place list) := by
  have hzip : ((list.zip (entryWires list)).map Prod.snd).Nodup := by
    rw [map_snd_zip (length_entryWires list).le]
    exact hwires
  refine ⟨fun m hm m' hm' heq => ?_, placeMonitors_known hzip⟩
  rw [inj_on_of_nodup_map (placeMonitors_ids hb hzip hknown) hm hm' heq]

namespace World

theorem setMonitors_aligned {w : World} (h : Aligned w.backend w.screens) (hb : w.backend.Fresh)
    {list : List Entry} (hsteady : Steady w (.helper (.monitors list))) :
    Aligned (w.setMonitors list).backend (w.setMonitors list).screens := by
  obtain ⟨hwires, hknown, hours, -⟩ := hsteady
  obtain ⟨idsByWire, nextMonitor, monitors, heq⟩ := place_eq w.backend list
  have hwaiting : Calm (w.backend.place list) (w.backend.setMonitors list) :=
    Calm.startWaiting _ _
  have howner : ∀ i, (w.backend.setMonitors list).owner i = w.backend.owner i := by
    intro i
    rw [hwaiting.owner, heq]
    rfl
  have hplaced : Placed (w.backend.setMonitors list) :=
    (placed_place hb hwires hknown).layout hwaiting.monitors hwaiting.wires
  rw [setMonitors, onMonitors_backend, onMonitors_screens]
  refine updateScreens_aligned hplaced (fun wire sc hsc => ?_)
    (fun _ _ _ _ hsc hsc' heq => h.apart hsc hsc' heq) fun m hm sc hsc => ?_
  · obtain ⟨s, v, hs, hsource⟩ := h.fed wire sc hsc
    exact ⟨s, v, (howner _).trans hs, hsource⟩
  obtain ⟨m0, hm0, hid, hwire, -⟩ := mem_of_layout hwaiting.monitors hm
  rw [← hid]
  rw [← hwire] at hsc
  obtain ⟨e, hin, hfrom⟩ := mem_placeMonitors hm0
  unfold knownHandle at hfrom
  split at hfrom
  · rename_i v hv
    split at hv
    · rename_i hvirtual
      rw [hours _ hin hvirtual v hv sc hsc]
      exact some.inj (hfrom.resolve_right (by simp))
    · cases hv
  -- known by its wire id: the screen's monitor is the one that has it
  obtain ⟨m1, hm1, hwire1, hid1⟩ := h.listed _ _ hsc
  have hknown1 := h.known m1 hm1
  rw [hwire1] at hknown1
  rw [hknown1] at hfrom
  rw [← hid1]
  exact some.inj (hfrom.resolve_right (by simp))

end World

/-! ## Every callback -/

theorem Aligned.destroy {screens : Std.ExtTreeMap String Screen}
    (h : Aligned b screens) {m : MonitorId}
    (hm : ∀ (wire : String) (sc : Screen), screens[wire]? = some sc → sc.monitor.id ≠ m) :
    Aligned (b.destroyVirtualMonitor m) screens := by
  obtain ⟨hkept, howner⟩ := destroyVirtualMonitor_spec b m
  refine h.kept hkept.monitors hkept.wires fun wire sc hsc => ?_
  rw [howner, if_neg (hm wire sc hsc)]

namespace World

variable {w : World}

theorem removeEach_aligned (h : Aligned w.backend w.screens) {ms : List MonitorId}
    (hms : ∀ m ∈ ms, ∀ (wire : String) (sc : Screen), w.screens[wire]? = some sc →
      sc.monitor.id ≠ m) :
    Aligned (w.removeEach ms).backend (w.removeEach ms).screens := by
  induction ms generalizing w with
  | nil => exact h
  | cons m ms ih =>
    rw [removeEach]
    refine ih ?_ fun m' hm' => hms m' (mem_cons_of_mem _ hm')
    exact h.destroy (hms m mem_cons_self)

theorem sessionDetached_aligned (h : Aligned w.backend w.screens) {id : SessionId}
    (hms : ∀ m ∈ w.mine id, ∀ (wire : String) (sc : Screen), w.screens[wire]? = some sc →
      sc.monitor.id ≠ m) :
    Aligned (w.sessionDetached id).backend (w.sessionDetached id).screens := by
  unfold sessionDetached removeVirtuals
  split
  · exact h
  rename_i ms hmine
  have hmine : w.mine id = ms := by
    rw [mine]
    have hmine : w.virtuals[id]? = some ms := hmine
    rw [hmine]
    rfl
  exact removeEach_aligned (w := { w with sessions := w.sessions.erase id }) h (hmine ▸ hms)

theorem addMonitor_screens (w : World) (id : SessionId) (msg : Call) (width height : Int) :
    (w.addMonitor id msg width height).screens = w.screens := by
  unfold addMonitor
  split
  · exact answer_screens _ _ _ _
  split
  · exact answer_screens _ _ _ _
  split
  · exact answer_screens _ _ _ _
  · exact answerAdds_screens _ _

theorem addMonitor_aligned (h : Aligned w.backend w.screens) (hb : w.backend.Fresh)
    (id : SessionId) (msg : Call) (width height : Int) :
    Aligned (w.addMonitor id msg width height).backend
      (w.addMonitor id msg width height).screens := by
  have hcreate : Aligned (w.backend.createVirtualMonitor width height).1 w.screens := by
    have hmove : Move w.backend (w.backend.createVirtualMonitor width height).1 := .create _ _ _
    refine h.kept hmove.layout.1 hmove.layout.2 fun wire sc hsc => ?_
    rcases createVirtualMonitor_spec w.backend width height with heq | ⟨-, -, -, -, -, s, howner⟩
    · rw [heq]
    -- the new handle is not a screen's
    obtain ⟨s', v, hs', -⟩ := h.fed wire sc hsc
    have hold := hb.captures sc.monitor.id (by rw [hs']; rfl)
    rw [howner, if_neg (Nat.ne_of_lt hold)]
  rw [addMonitor_screens]
  unfold addMonitor
  split
  · rw [answer_backend]
    exact h
  split
  · rw [answer_backend]
    exact h
  split
  · rename_i backend heq
    rw [heq] at hcreate
    rw [answer_backend]
    exact hcreate
  rename_i backend m heq
  rw [heq] at hcreate
  rw [answerAdds_backend]
  exact hcreate

theorem addTimedOut_aligned (h : Aligned w.backend w.screens) {m : MonitorId}
    (hm : ∀ (wire : String) (sc : Screen), w.screens[wire]? = some sc → sc.monitor.id ≠ m) :
    Aligned (w.addTimedOut m).backend (w.addTimedOut m).screens := by
  unfold addTimedOut
  split
  · exact h
  · split <;> exact h.destroy hm

theorem removeMonitor_aligned (h : Aligned w.backend w.screens) {id : SessionId}
    {msg : Call} {wire : String}
    (hm : ∀ m ∈ w.destroys (.removeMonitor id msg wire), ∀ (wire : String) (sc : Screen),
      w.screens[wire]? = some sc → sc.monitor.id ≠ m) :
    Aligned (w.removeMonitor id msg wire).backend (w.removeMonitor id msg wire).screens := by
  unfold removeMonitor
  split
  · rw [answer_backend, answer_screens]
    exact h
  rename_i mon hmon
  rw [answer_backend, answer_screens]
  refine h.destroy (hm mon.id ?_)
  rw [destroys, hmon]
  exact mem_cons_self

theorem onCaptureLost_screens (w : World) (monitor : MonitorId) (why : CaptureLost) :
    (w.onCaptureLost monitor why).screens = w.screens := by
  unfold onCaptureLost
  split
  · rfl
  split
  · rfl
  · dsimp only
    split <;> rfl

theorem Loses.screens {w w' : World} (h : Loses w w') : w'.screens = w.screens := by
  induction h with
  | refl w => rfl
  | lose source reason monitor why _ ih => rw [ih, onCaptureLost_screens]

theorem onSessionChanged_screens (w : World) (running : Bool) :
    (w.onSessionChanged running).screens = w.screens := by
  unfold onSessionChanged
  split <;> rfl

variable (h : Aligned w.backend w.screens)
include h

theorem dropHelper_aligned :
    Aligned w.dropHelper.backend w.dropHelper.screens := by
  cases hconnected : w.backend.connected with
  | false =>
    have hsame : w.dropHelper = w := by
      rw [dropHelper, hconnected]
      rfl
    rw [hsame]
    exact h
  | true =>
    have hmonitors : w.dropHelper.backend.monitors = [] := by
      rw [dropHelper_backend, if_pos hconnected]
      have hlayout := (onMonitors_moves
        { w.afterLoss with backend := w.afterLoss.backend.leave } []).layout.1
      exact map_eq_nil_iff.mp hlayout
    have hscreens : ∀ wire, wire ∉ w.dropHelper.screens := by
      have hafter : w.dropHelper.screens =
          ({ w.afterLoss with backend := w.afterLoss.backend.leave }.onMonitors []).screens := by
        unfold dropHelper
        rw [hconnected, if_neg (by simp)]
        dsimp only
        split
        · exact onSessionChanged_screens _ false
        · rfl
      intro wire hwire
      rw [hafter, onMonitors_screens, updateScreens, addNew] at hwire
      obtain ⟨hin, hnot⟩ := ((dropGone_spec _ _ _).2.2.2 wire).mp hwire
      refine hnot ⟨?_, by simp⟩
      rw [Std.ExtTreeMap.map_fst_toList_eq_keys, Std.ExtTreeMap.mem_keys]
      exact hin
    have hnone : ∀ (wire : String) (sc : Screen), w.dropHelper.screens[wire]? ≠ some sc := by
      intro wire sc hsc
      exact hscreens wire (Std.ExtTreeMap.mem_iff_isSome_getElem?.mpr (by rw [hsc]; rfl))
    refine ⟨⟨?_, ?_⟩, fun wire sc hsc => absurd hsc (hnone wire sc),
      fun wire sc hsc => absurd hsc (hnone wire sc)⟩
    · rw [hmonitors]
      exact fun m hm => absurd hm not_mem_nil
    · rw [hmonitors]
      exact fun m hm => absurd hm not_mem_nil

theorem handle_aligned (hb : w.backend.Fresh)
    {m : Helper} (hsteady : Steady w (.helper m)) :
    Aligned (w.handle m).backend (w.handle m).screens := by
  unfold handle
  split
  · split
    · exact dropHelper_aligned (w := { w with
        backend := w.backend.send (.refuse ("this agent speaks " ++ protocol)) })
        (h.calm (.send _ _))
    rw [onSessionChanged_backend, onSessionChanged_screens]
    refine h.calm (Calm.trans ?_ (Calm.send _ _))
    exact .of_eq rfl rfl rfl rfl rfl
  split
  · exact h
  split
  · exact setMonitors_aligned h hb hsteady
  · split
    · exact h.calm (.captureStarted _ _ _ _)
    · exact h
  · rw [(Loses.captureLost w _ _ _).screens]
    exact h.calm (Loses.captureLost w _ _ _).calm
  · exact h.calm (virtualConnector_calm _ _ _)
  · rw [(Loses.sharingStopped w _).screens]
    exact h.calm (Loses.sharingStopped w _).calm
  · exact h

theorem onReader_aligned (s : SourceId)
    (monitor : MonitorId) (r : Reader) :
    Aligned (w.onReader s monitor r).backend (w.onReader s monitor r).screens := by
  cases r with
  | memory => exact h.calm (.setSource _ _ _)
  | stalled =>
    have hrestart := h.calm (Calm.restartCapture w.backend monitor)
    rw [onReader]
    dsimp only
    split
    · exact onMonitors_aligned (w := { w with
        backend := (w.backend.restartCapture monitor).1 }) hrestart
    · exact hrestart
  | memoryChanged => exact h.calm (.restartForMemory _ _)
  | fallback why => exact h.calm (.fallBackToShm _ _ _)
  | failed why =>
    rw [onReader]
    split
    · exact h
    · exact h.calm (.lost _ _ _)

end World

open World

theorem step_aligned (h : Aligned w.backend w.screens)
    (hb : w.backend.Fresh) (hsteady : Steady w a) (hstep : step w a = some w') :
    Aligned w'.backend w'.screens := by
  have hdestroys : ∀ m, (∀ x ∈ w.screens.toList, x.2.monitor.id ∉ w.destroys a) →
      m ∈ w.destroys a → ∀ (wire : String) (sc : Screen), w.screens[wire]? = some sc →
        sc.monitor.id ≠ m := by
    intro m hall hm wire sc hsc heq
    exact hall (wire, sc) (Std.ExtTreeMap.mem_toList_iff_getElem?_eq_some.mpr hsc) (heq ▸ hm)
  cases a with
  | attach id =>
    obtain ⟨-, rfl⟩ := guarded_not.mp hstep
    unfold sessionAttached
    dsimp only
    split <;> exact h
  | detach id =>
    obtain ⟨-, rfl⟩ := guarded.mp hstep
    exact sessionDetached_aligned h fun m hm => hdestroys m hsteady hm
  | resumeSharing id msg =>
    obtain ⟨-, rfl⟩ := guarded.mp hstep
    rw [resumeSharing, answer_backend, answer_screens]
    unfold resume
    split
    · exact h
    · exact recapture_aligned h _
  | addMonitor id msg width height =>
    obtain ⟨-, rfl⟩ := guarded.mp hstep
    exact addMonitor_aligned h hb id msg width height
  | removeMonitor id msg wire =>
    obtain ⟨-, rfl⟩ := guarded.mp hstep
    exact removeMonitor_aligned h fun m hm => hdestroys m hsteady hm
  | addTimedOut m =>
    obtain ⟨-, rfl⟩ := guarded.mp hstep
    exact addTimedOut_aligned h (hdestroys m hsteady mem_cons_self)
  | connect =>
    obtain ⟨-, rfl⟩ := guarded_not.mp hstep
    refine h.calm ?_
    exact .of_eq rfl rfl rfl rfl rfl
  | helper m =>
    obtain ⟨-, rfl⟩ := guarded.mp hstep
    exact handle_aligned h hb hsteady
  | disconnect =>
    obtain ⟨-, rfl⟩ := guarded.mp hstep
    exact dropHelper_aligned h
  | reader s r =>
    simp only [step, map_eq_some_iff] at hstep
    obtain ⟨monitor, -, rfl⟩ := hstep
    exact onReader_aligned h s monitor r

/-! ## Wire ids of virtual monitors -/

def Monitor.named (m : Monitor) : MonitorKey × String := (m.key, m.wireId)

/-- The wire ids of the layout are those of its keys. -/
def Named (b : Backend) : Prop :=
  b.monitors.map Monitor.named =
    (b.monitors.map Monitor.key).zip (wireIds (b.monitors.map Monitor.key))

theorem keys_of_layout
    (hlayout : b'.monitors.map Monitor.ident = b.monitors.map Monitor.ident) :
    b'.monitors.map Monitor.named = b.monitors.map Monitor.named ∧
      b'.monitors.map Monitor.key = b.monitors.map Monitor.key := by
  have hnamed : ∀ l : List Monitor, l.map named =
      (l.map ident).map fun x => (x.2.2, x.2.1) := by
    intro l
    rw [List.map_map]
    rfl
  have hkey : ∀ l : List Monitor, l.map key =
      (l.map ident).map fun x => x.2.2 := by
    intro l
    rw [List.map_map]
    rfl
  rw [hnamed, hnamed, hkey, hkey, hlayout]
  exact ⟨rfl, rfl⟩

theorem placeMonitors_named (b : Backend) (l : List (Entry × String)) :
    (b.placeMonitors l).2.map Monitor.named = l.map fun x => (x.1.key, x.2) := by
  induction l generalizing b with
  | nil => rfl
  | cons x l ih =>
    obtain ⟨e, wire⟩ := x
    rw [map_cons, ← ih (b.placeMonitor e wire).1]
    rfl

theorem place_named (b : Backend) (list : List Entry) :
    Named (b.place list) ∧ (b.place list).monitors.map Monitor.key = list.map Entry.key := by
  have hnamed : (b.place list).monitors.map named =
      (list.map Entry.key).zip (wireIds (list.map Entry.key)) := by
    refine (placeMonitors_named b _).trans ?_
    rw [zip_map_left]
    rfl
  have hkeys : (b.place list).monitors.map key = list.map Entry.key := by
    have hfst := congrArg (map Prod.fst) hnamed
    rw [List.map_map, map_fst_zip (by rw [wireIds, length_wireIdsFrom])] at hfst
    exact hfst
  exact ⟨by rw [Named, hnamed, hkeys], hkeys⟩

theorem Named.layout (h : Named b)
    (hlayout : b'.monitors.map Monitor.ident = b.monitors.map Monitor.ident) : Named b' := by
  obtain ⟨hnamed, hkey⟩ := keys_of_layout hlayout
  rw [Named, hnamed, hkey]
  exact h

theorem virtualsOf_cons (k : MonitorKey) (l : List MonitorKey) : virtualsOf (k :: l) =
    if k.isVirtual then k.connector :: virtualsOf l else virtualsOf l := by
  unfold virtualsOf
  rw [filter_cons]
  split <;> rfl

theorem virtual_wire {set : List MonitorKey} {n : Nat} {l : List MonitorKey} {k : MonitorKey}
    {wire : String} (hmem : (k, wire) ∈ l.zip (wireIdsFrom set n l)) (hk : k.isVirtual = true) :
    ∃ i, (k.connector, i) ∈ (virtualsOf l).zipIdx n ∧ wire = "virtual-" ++ toString (i + 1) := by
  induction l generalizing n with
  | nil => cases hmem
  | cons k' l ih =>
    rw [wireIdsFrom] at hmem
    rw [virtualsOf_cons]
    split at hmem
    · rename_i hvirtual
      rw [if_pos hvirtual, zipIdx_cons]
      rw [zip_cons_cons, mem_cons] at hmem
      rcases hmem with heq | hmem
      · obtain ⟨rfl, rfl⟩ := Prod.mk.inj heq
        exact ⟨n, mem_cons_self, rfl⟩
      · obtain ⟨i, hi, hwire⟩ := ih hmem
        exact ⟨i, mem_cons_of_mem _ hi, hwire⟩
    rename_i hphysical
    rw [if_neg hphysical]
    rw [zip_cons_cons, mem_cons] at hmem
    rcases hmem with heq | hmem
    · obtain ⟨rfl, -⟩ := Prod.mk.inj heq
      exact absurd hk hphysical
    · exact ih hmem

/-- Virtual monitors that keep their places keep their wire ids. -/
theorem keepsWire_of_inPlace (hb : Named b) (hb' : Named b')
    (hplace : InPlace (virtualsOf (b.monitors.map Monitor.key))
      (virtualsOf (b'.monitors.map Monitor.key))) : KeepsWire b b' := by
  intro m hm m' hm' hvirtual hvirtual' hconnector
  have hin : m.named ∈ b.monitors.map named := List.mem_map_of_mem hm
  have hin' : m'.named ∈ b'.monitors.map named := List.mem_map_of_mem hm'
  rw [hb] at hin
  rw [hb'] at hin'
  obtain ⟨i, hi, hwire⟩ := virtual_wire hin hvirtual
  obtain ⟨i', hi', hwire'⟩ := virtual_wire hin' hvirtual'
  have hsame : i' = i := hplace _ hi' _ hi hconnector
  rw [hwire, hwire', hsame]

theorem inPlace_self {l : List String} (hl : l.Nodup) : InPlace l l := by
  intro x hx y hy heq
  obtain ⟨x, i⟩ := x
  obtain ⟨y, j⟩ := y
  rw [mem_zipIdx_iff_getElem?] at hx hy
  obtain ⟨hi, hx⟩ := List.getElem?_eq_some_iff.mp hx
  obtain ⟨hj, hy⟩ := List.getElem?_eq_some_iff.mp hy
  exact (hl.getElem_inj_iff).mp (hx.trans (heq.trans hy.symm))

/-- The layout's wire ids are those of its keys, and its connectors are
distinct. -/
structure WellNamed (b : Backend) : Prop where
  named : Named b
  connectors : ((b.monitors.map Monitor.key).map MonitorKey.connector).Nodup

theorem WellNamed.layout (h : WellNamed b)
    (hlayout : b'.monitors.map Monitor.ident = b.monitors.map Monitor.ident) : WellNamed b' :=
  ⟨h.named.layout hlayout, (keys_of_layout hlayout).2 ▸ h.connectors⟩

theorem wellNamed_nil (h : b.monitors = []) : WellNamed b := by
  refine ⟨?_, ?_⟩
  · rw [Named, h]
    rfl
  · rw [h]
    exact nodup_nil

theorem wellNamed_place (b : Backend) {list : List Entry}
    (hlist : DistinctConnectors (.helper (.monitors list))) : WellNamed (b.place list) := by
  refine ⟨(place_named b list).1, ?_⟩
  rw [(place_named b list).2, List.map_map]
  exact hlist

theorem step_wellNamed (h : WellNamed w.backend)
    (ha : DistinctConnectors a) (hstep : step w a = some w') : WellNamed w'.backend := by
  rcases step_moves hstep with hmoves | ⟨list, rfl, hmoves⟩ | ⟨b, -, hmoves⟩
  · exact h.layout hmoves.layout.1
  · exact (wellNamed_place w.backend ha).layout hmoves.layout.1
  · exact (wellNamed_nil (b := b.leave) rfl).layout hmoves.layout.1

theorem step_keepsWire (h : WellNamed w.backend)
    (ha : DistinctConnectors a) (hsteady : Steady w a) (hstep : step w a = some w') :
    KeepsWire w.backend w'.backend := by
  have hafter := step_wellNamed h ha hstep
  rcases step_moves hstep with hmoves | ⟨list, rfl, hmoves⟩ | ⟨b, -, hmoves⟩
  · refine keepsWire_of_inPlace h.named hafter.named ?_
    rw [(keys_of_layout hmoves.layout.1).2]
    exact inPlace_self (h.connectors.sublist (filter_sublist.map _))
  · refine keepsWire_of_inPlace h.named hafter.named ?_
    rw [(keys_of_layout hmoves.layout.1).2, (place_named w.backend list).2]
    exact hsteady.2.2.2
  intro m hm m' hm'
  have hnil : w'.backend.monitors = [] := map_eq_nil_iff.mp hmoves.layout.1
  rw [hnil] at hm'
  cases hm'

/-! ## Every run -/

/-- **A track shows the monitor it names.** In every run of steady steps,
with layouts of distinct connectors, every screen shows its monitor after
every step, and the next such step leaves every virtual monitor that stays
in the layout its wire id. -/
theorem tracks_show_their_monitor {w : World} {as : List Act}
    (hrun : system.run system.init as = some w)
    (hinput : ∀ a ∈ as, DistinctConnectors a) (hsteady : system.AllSteps Steady system.init as) :
    w.Shows ∧ ∀ a w', DistinctConnectors a → Steady w a → step w a = some w' →
      KeepsWire w.backend w'.backend := by
  have hconnectors : system.AllSteps (fun _ a => DistinctConnectors a) system.init as :=
    system.allSteps_of_forall fun a ha _ => hinput a ha
  obtain ⟨haligned, hnamed⟩ : Aligned w.backend w.screens ∧ WellNamed w.backend := by
    refine system.run_induction
      (P := fun w => Aligned w.backend w.screens ∧ WellNamed w.backend)
      (fun v a v' hv hQ hstep => ?_) ?_
      ((hsteady.and_reachable system.reachable_init).and hconnectors) hrun
    · obtain ⟨⟨hreach, hq⟩, hdistinct⟩ := hQ
      exact ⟨step_aligned hv.1 (fresh_of_reachable hreach) hq hstep,
        step_wellNamed hv.2 hdistinct hstep⟩
    refine ⟨⟨⟨fun m hm => (nomatch hm), fun m hm => (nomatch hm)⟩, fun wire sc hsc => ?_,
      fun wire sc hsc => ?_⟩, wellNamed_nil rfl⟩
    · simp [system] at hsc
    · simp [system] at hsc
  exact ⟨fun wire sc hsc => haligned.shown hsc,
    fun a w' ha hq hstep => step_keepsWire hnamed ha hq hstep⟩

/-- A virtual monitor the session added, beside a monitor of the robot. -/
def oneOfOurs : List Act :=
  [.connect, .helper (.hello protocol), .attach "s", .addMonitor "s" { id := 1 } 640 480,
    .helper (.virtualConnector 1 "Meta-0"),
    .helper (.monitors [{ key := { connector := "DP-1" } },
      { key := { connector := "Meta-0", isVirtual := true } }]),
    .helper .sharingStopped, .resumeSharing "s" { id := 2 }]

theorem tracks_show_two : ∃ w, system.run system.init oneOfOurs = some w ∧ w.Shows ∧
    (w.screens.toList.map fun x => (x.1, x.2.monitor.id, x.2.source)) =
      [("dp-1", 2, some 2), ("virtual-1", 1, some 0)] := by
  refine evaluated (fun w => w.screens.toList.map fun x => (x.1, x.2.monitor.id, x.2.source))
    (b := [("dp-1", 2, some 2), ("virtual-1", 1, some 0)]) (by decide +kernel) fun w hrun hw => ?_
  exact ⟨(tracks_show_their_monitor hrun (by decide +kernel) (by decide +kernel)).1, hw⟩

/-- Two virtual monitors of ours, both in the layout. -/
def twoOfOurs : List Act :=
  [.connect, .helper (.hello protocol), .attach "s", .addMonitor "s" { id := 1 } 640 480,
    .addMonitor "s" { id := 2 } 640 480, .helper (.virtualConnector 1 "Meta-0"),
    .helper (.virtualConnector 2 "Meta-1"),
    .helper (.monitors [{ key := { connector := "Meta-0", isVirtual := true } },
      { key := { connector := "Meta-1", isVirtual := true } }])]

/-- The first of them has left. -/
def onlySecond : Act :=
  .helper (.monitors [{ key := { connector := "Meta-1", isVirtual := true } }])

def World.wiresByConnector (w : World) : List (String × String) :=
  w.backend.monitors.map fun m => (m.key.connector, m.wireId)

/-- **A renumbered track.** Two virtual monitors of ours, with handles 1
and 2, and the first leaves: the second is `virtual-1` now, so the screen
of that name takes its monitor and keeps the source of the one that left. -/
theorem renumbered_track : ∃ w w' sc, system.run system.init twoOfOurs = some w ∧
    step w onlySecond = some w' ∧
    w.wiresByConnector = [("Meta-0", "virtual-1"), ("Meta-1", "virtual-2")] ∧
    w'.wiresByConnector = [("Meta-1", "virtual-1")] ∧
    w'.screens["virtual-1"]? = some sc ∧ sc.monitor.id = 2 ∧ sc.source = some 0 ∧
    (w'.backend.captures[(2 : MonitorId)]?).map Capture.source = some 1 := by
  have hbefore : (system.run system.init twoOfOurs).map wiresByConnector =
      some [("Meta-0", "virtual-1"), ("Meta-1", "virtual-2")] := by decide +kernel
  have hafter : ((system.run system.init twoOfOurs).bind fun w => step w onlySecond).map
      wiresByConnector = some [("Meta-1", "virtual-1")] := by decide +kernel
  have hscreen : ((system.run system.init twoOfOurs).bind fun w => step w onlySecond).map
      (fun w' => (w'.screens["virtual-1"]?).map fun sc => (sc.monitor.id, sc.source)) =
        some (some (2, some 0)) := by decide +kernel
  have hcapture : ((system.run system.init twoOfOurs).bind fun w => step w onlySecond).map
      (fun w' => (w'.backend.captures[(2 : MonitorId)]?).map Capture.source) = some (some 1) := by
    decide +kernel
  obtain ⟨w, hrun, hbefore⟩ := map_eq_some_iff.mp hbefore
  rw [hrun, bind_some] at hafter hscreen hcapture
  obtain ⟨w', hstep, hafter⟩ := map_eq_some_iff.mp hafter
  rw [hstep, map_some, some.injEq] at hscreen hcapture
  obtain ⟨sc, hsc, hpair⟩ := map_eq_some_iff.mp hscreen
  obtain ⟨hid, hsource⟩ := Prod.mk.inj hpair
  exact ⟨w, w', sc, hrun, hstep, hbefore, hafter, hsc, hid, hsource, hcapture⟩

end Fjarr.Desktop
