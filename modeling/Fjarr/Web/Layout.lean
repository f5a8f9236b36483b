/-
Fjarr.Web.Layout — `throughLayout` of `core/src/desktop.ts`: where a point
past a monitor's edge is in the robot's layout.

The loop keeps the best monitor so far, by the distance to the nearest
point of it; a tie goes to the monitor the drag started on. Numbers are
rational here. A monitor without width or height is skipped, so a point on
it is not found (`flat_monitor_skipped`); over the others the result is
the nearest point there is (`nearest_in_layout`).
-/
import Fjarr.Lib.Transition

namespace Fjarr.Web.Layout

open List

/-- `MonitorInfo`, as `throughLayout` picks it. -/
structure Monitor where
  id : String
  x : ℚ
  y : ℚ
  w : ℚ
  h : ℚ
  deriving DecidableEq

/-- Where a normalized point of the monitor is on the robot. -/
def Monitor.at (m : Monitor) (nx ny : ℚ) : ℚ × ℚ := (m.x + nx * m.w, m.y + ny * m.h)

def Monitor.Contains (m : Monitor) (p : ℚ × ℚ) : Prop :=
  (m.x ≤ p.1 ∧ p.1 ≤ m.x + m.w) ∧ m.y ≤ p.2 ∧ p.2 ≤ m.y + m.h

/-- The distance of two points, squared. -/
def dist2 (p q : ℚ × ℚ) : ℚ := (p.1 - q.1) ^ 2 + (p.2 - q.2) ^ 2

/-- The monitor's point the loop compares by. -/
def Monitor.nearest (m : Monitor) (r : ℚ × ℚ) : ℚ × ℚ :=
  (min (max r.1 m.x) (m.x + m.w), min (max r.2 m.y) (m.y + m.h))

/-- `if (m.w <= 0 || m.h <= 0) continue`. -/
def Monitor.Shows (m : Monitor) : Prop := 0 < m.w ∧ 0 < m.h

instance (m : Monitor) : Decidable m.Shows := inferInstanceAs (Decidable (_ ∧ _))

/-- The loop's body, over the best monitor so far. -/
def consider (fromId : String) (r : ℚ × ℚ) (best : Option Monitor) (m : Monitor) :
    Option Monitor :=
  if ¬ m.Shows then best
  else
    match best with
    | none => some m
    | some b =>
      let d := dist2 r (m.nearest r)
      let bd := dist2 r (b.nearest r)
      if d < bd ∨ d = bd ∧ m.id = fromId then some m else best

def throughLayout (monitors : List Monitor) (fromId : String) (nx ny : ℚ) :
    Option (String × ℚ × ℚ) :=
  match monitors.find? (·.id = fromId) with
  | none => none
  | some start =>
    if ¬ start.Shows then none
    else
      let r := start.at nx ny
      (monitors.foldl (consider fromId r) none).map fun m =>
        (m.id, ((m.nearest r).1 - m.x) / m.w, ((m.nearest r).2 - m.y) / m.h)

/-! ## The nearest point -/

variable {m : Monitor} {r : ℚ × ℚ}

theorem clamp_mem {lo len : ℚ} (hlen : 0 < len) (r : ℚ) :
    lo ≤ min (max r lo) (lo + len) ∧ min (max r lo) (lo + len) ≤ lo + len :=
  ⟨le_min (le_max_right r lo) (by linarith), min_le_right _ _⟩

theorem clamp_nearest {lo hi q : ℚ} (hlo : lo ≤ q) (hhi : q ≤ hi) (r : ℚ) :
    (r - min (max r lo) hi) ^ 2 ≤ (r - q) ^ 2 := by
  rw [sq_le_sq]
  rcases le_total r lo with hr | hr
  · rw [max_eq_right hr, min_eq_left (hlo.trans hhi), abs_of_nonpos (by linarith),
      abs_of_nonpos (by linarith)]
    linarith
  rw [max_eq_left hr]
  rcases le_total r hi with hr' | hr'
  · rw [min_eq_left hr', sub_self, abs_zero]
    exact abs_nonneg _
  · rw [min_eq_right hr', abs_of_nonneg (by linarith), abs_of_nonneg (by linarith)]
    linarith

theorem Monitor.dist2_nearest_le {q : ℚ × ℚ} (hq : m.Contains q) (r : ℚ × ℚ) :
    dist2 r (m.nearest r) ≤ dist2 r q :=
  add_le_add (clamp_nearest hq.1.1 hq.1.2 r.1) (clamp_nearest hq.2.1 hq.2.2 r.2)

theorem Monitor.contains_nearest (hm : m.Shows) (r : ℚ × ℚ) : m.Contains (m.nearest r) :=
  ⟨clamp_mem hm.1 r.1, clamp_mem hm.2 r.2⟩

theorem eq_of_dist2_le_zero {p q : ℚ × ℚ} (h : dist2 p q ≤ 0) : q = p := by
  unfold dist2 at h
  have h₁ : (p.1 - q.1) ^ 2 = 0 := by linarith [sq_nonneg (p.1 - q.1), sq_nonneg (p.2 - q.2)]
  have h₂ : (p.2 - q.2) ^ 2 = 0 := by linarith [sq_nonneg (p.1 - q.1), sq_nonneg (p.2 - q.2)]
  exact Prod.ext (sub_eq_zero.mp (pow_eq_zero_iff two_ne_zero |>.mp h₁)).symm
    (sub_eq_zero.mp (pow_eq_zero_iff two_ne_zero |>.mp h₂)).symm

/-! ## The loop -/

/-- The best of the monitors seen: as near as any of them, and the one the
drag started on where that is as near. -/
def Best (fromId : String) (r : ℚ × ℚ) (seen : List Monitor) : Option Monitor → Prop
  | none => ∀ m ∈ seen, ¬ m.Shows
  | some b => b ∈ seen ∧ b.Shows ∧ ∀ m ∈ seen, m.Shows →
      dist2 r (b.nearest r) ≤ dist2 r (m.nearest r) ∧
        (m.id = fromId → dist2 r (m.nearest r) = dist2 r (b.nearest r) → b.id = fromId)

/-- **Step.** -/
theorem Best.consider {fromId : String} {seen : List Monitor} {best : Option Monitor}
    (h : Best fromId r seen best) (m : Monitor) :
    Best fromId r (seen ++ [m]) (consider fromId r best m) := by
  unfold Layout.consider
  split
  · -- skipped
    rename_i hm
    cases best with
    | none => simpa [Best, or_imp, forall_and, hm] using h
    | some b =>
      obtain ⟨hb, hshows, hbest⟩ := h
      refine ⟨mem_append_left _ hb, hshows, fun m' hm' hshows' => ?_⟩
      rcases mem_append.mp hm' with hm' | hm'
      · exact hbest m' hm' hshows'
      · exact absurd (mem_singleton.mp hm' ▸ hshows') hm
  rename_i hm
  rw [not_not] at hm
  cases best with
  | none =>
    refine ⟨by simp, hm, fun m' hm' hshows' => ?_⟩
    rcases Lib.mem_snoc.mp hm' with hm' | rfl
    · exact absurd hshows' (h m' hm')
    · exact ⟨le_refl _, fun hid _ => hid⟩
  | some b =>
    obtain ⟨hb, hshows, hbest⟩ := h
    dsimp only
    split
    · rename_i hbetter
      refine ⟨by simp, hm, fun m' hm' hshows' => ?_⟩
      rcases Lib.mem_snoc.mp hm' with hm' | rfl
      · obtain ⟨hle, htie⟩ := hbest m' hm' hshows'
        rcases hbetter with hlt | ⟨heq, hid⟩
        · exact ⟨hlt.le.trans hle, fun _ heq => by linarith⟩
        · exact ⟨heq.le.trans hle, fun _ _ => hid⟩
      · exact ⟨le_refl _, fun hid _ => hid⟩
    rename_i hbetter
    obtain ⟨hle, hne⟩ := not_or.mp hbetter
    refine ⟨mem_append_left _ hb, hshows, fun m' hm' hshows' => ?_⟩
    rcases Lib.mem_snoc.mp hm' with hm' | rfl
    · exact hbest m' hm' hshows'
    · exact ⟨not_lt.mp hle, fun hid heq => absurd ⟨heq, hid⟩ hne⟩

theorem Best.foldl {fromId : String} {seen : List Monitor} {best : Option Monitor}
    (h : Best fromId r seen best) (monitors : List Monitor) :
    Best fromId r (seen ++ monitors) (monitors.foldl (Layout.consider fromId r) best) := by
  induction monitors generalizing seen best with
  | nil => rwa [append_nil]
  | cons m monitors ih =>
    rw [foldl_cons, ← singleton_append, ← append_assoc]
    exact ih (h.consider m)

/-- **A drag lands where the layout says**: at the point of the layout
nearest to where it points, which is that point itself where a monitor
has it, and on the monitor it started on where that is as near. -/
theorem nearest_in_layout {monitors : List Monitor} (hids : (monitors.map Monitor.id).Nodup)
    {start : Monitor} (hstart : start ∈ monitors) (hshows : start.Shows) (nx ny : ℚ) :
    ∃ m ∈ monitors, ∃ x y, throughLayout monitors start.id nx ny = some (m.id, x, y) ∧
      m.Shows ∧ (0 ≤ x ∧ x ≤ 1) ∧ (0 ≤ y ∧ y ≤ 1) ∧
      (∀ m' ∈ monitors, m'.Shows → ∀ q, m'.Contains q →
        dist2 (start.at nx ny) (m.at x y) ≤ dist2 (start.at nx ny) q) ∧
      (∀ m' ∈ monitors, m'.Shows → m'.Contains (start.at nx ny) →
        m.at x y = start.at nx ny) ∧
      ((∃ p, start.Contains p ∧ ∀ m' ∈ monitors, m'.Shows → ∀ q, m'.Contains q →
        dist2 (start.at nx ny) p ≤ dist2 (start.at nx ny) q) → m = start) := by
  have hsame : ∀ m ∈ monitors, m.id = start.id → m = start := fun m hm hid =>
    inj_on_of_nodup_map hids hm hstart hid
  have hfind : monitors.find? (·.id = start.id) = some start := by
    obtain ⟨m, hm⟩ := Option.isSome_iff_exists.mp (find?_isSome.mpr
      (show ∃ m ∈ monitors, decide (m.id = start.id) = true from ⟨start, hstart, by simp⟩))
    have hid : m.id = start.id := by simpa using find?_some hm
    rw [hm, hsame m (mem_of_find?_eq_some hm) hid]
  generalize hr : start.at nx ny = r
  have hbest : Best start.id r monitors (monitors.foldl (consider start.id r) none) :=
    Best.foldl (show Best start.id r [] none from nofun) monitors
  simp only [throughLayout, hfind, hshows, not_true, if_false, hr]
  cases hfold : monitors.foldl (consider start.id r) none with
  | none =>
    rw [hfold] at hbest
    exact absurd hshows (hbest start hstart)
  | some m =>
    rw [hfold] at hbest
    obtain ⟨hm, hpos, hleast⟩ := hbest
    have hin := m.contains_nearest hpos r
    have hat : m.at (((m.nearest r).1 - m.x) / m.w) (((m.nearest r).2 - m.y) / m.h) =
        m.nearest r := by
      unfold Monitor.at
      rw [div_mul_cancel₀ _ hpos.1.ne', div_mul_cancel₀ _ hpos.2.ne', add_sub_cancel,
        add_sub_cancel]
    have hnearest : ∀ m' ∈ monitors, m'.Shows → ∀ q, m'.Contains q →
        dist2 r (m.nearest r) ≤ dist2 r q := fun m' hm' hs q hq =>
      (hleast m' hm' hs).1.trans (m'.dist2_nearest_le hq r)
    refine ⟨m, hm, _, _, rfl, hpos, ?_, ?_, ?_, ?_, ?_⟩
    · exact ⟨div_nonneg (by linarith [hin.1.1]) hpos.1.le,
        (div_le_one hpos.1).mpr (by linarith [hin.1.2])⟩
    · exact ⟨div_nonneg (by linarith [hin.2.1]) hpos.2.le,
        (div_le_one hpos.2).mpr (by linarith [hin.2.2])⟩
    · rwa [hat]
    · intro m' hm' hs hq
      rw [hat]
      exact eq_of_dist2_le_zero ((hnearest m' hm' hs r hq).trans_eq (by simp [dist2]))
    rintro ⟨p, hp, hleast'⟩
    refine hsame m hm ((hleast start hstart hshows).2 rfl (le_antisymm ?_ ?_))
    · exact (start.dist2_nearest_le hp r).trans (hleast' m hm hpos _ hin)
    · exact (hleast start hstart hshows).1

def sideBySide : List Monitor := [⟨"a", 0, 0, 10, 10⟩, ⟨"b", 10, 0, 10, 10⟩]

/-- Past the right edge of the first of two monitors. -/
theorem nearest_in_layout_beside : ∃ m ∈ sideBySide, ∃ x y,
    throughLayout sideBySide "a" (3 / 2) (1 / 2) = some (m.id, x, y) ∧ m.at x y = (15, 5) := by
  have hids : (sideBySide.map Monitor.id).Nodup := by decide
  obtain ⟨m, hm, x, y, heq, -, -, -, -, hin, -⟩ := nearest_in_layout hids
    (show ⟨"a", 0, 0, 10, 10⟩ ∈ sideBySide by simp [sideBySide]) (by decide) (3 / 2) (1 / 2)
  refine ⟨m, hm, x, y, heq, (hin ⟨"b", 10, 0, 10, 10⟩ (by simp [sideBySide]) (by decide) ?_).trans ?_⟩
  · norm_num [Monitor.Contains, Monitor.at]
  · norm_num [Monitor.at]

/-- A monitor without width has the point, and another is returned. -/
theorem flat_monitor_skipped :
    Monitor.Contains ⟨"b", 15, 0, 0, 10⟩ (Monitor.at ⟨"a", 0, 0, 10, 10⟩ (3 / 2) (1 / 2)) ∧
      throughLayout [⟨"a", 0, 0, 10, 10⟩, ⟨"b", 15, 0, 0, 10⟩] "a" (3 / 2) (1 / 2) =
        some ("a", 1, 1 / 2) := by
  refine ⟨?_, ?_⟩
  · norm_num [Monitor.Contains, Monitor.at]
  · decide +kernel

end Fjarr.Web.Layout
