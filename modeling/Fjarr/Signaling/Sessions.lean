/-
Fjarr.Signaling.Sessions — what holds of the registry and of every task
in every interleaving.

* A session is in the registry exactly between its opening and its one
  removal (`Live`).
* The agent registered for a robot is a task authenticated as that robot
  that has not run its disconnect, and a session's operator is the task
  that opened it (`Owner`).
* The lifecycle events decided on, emitted and still owed balance
  (`ledger`).
-/
import Fjarr.Lib.Ledger
import Fjarr.Signaling.Moves

namespace Fjarr.Signaling

open Fjarr.Lib List Op

/-! ## Operations and the store -/

theorem Channel.push_cases (c : Channel) (d : Delivery) :
    (c.closed = true ∧ c.push d = c) ∨
      (c.closed = false ∧ c.push d = { c with queue := c.queue ++ [d] }) := by
  unfold push
  cases hc : c.closed <;> simp

theorem Channel.mem_push {c : Channel} {d d' : Delivery} (h : d ∈ (c.push d').queue) :
    d ∈ c.queue ∨ d = d' := by
  unfold push at h
  split at h
  · exact .inl h
  · simpa using h

namespace Op

/-- What an operation performed by task `i` has found in the store. -/
def Enabled (s : Shared) (i : Nat) : Op → Prop
  | .insert sid x => sid ∉ s.opened.map (·.sid) ∧ x.operatorTx = i
  | .remove sid => ∃ x, s.sessions[sid]? = some x
  | .sweep r order => s.agents[r]? = some i ∧ order.Perm s.sessions.keys
  | .note n => ∃ sid, n = .started sid
  | _ => True

/-- The sessions an operation opens. -/
@[simp] def opens : Op → List Opening
  | .insert sid session => [{ sid, session }]
  | _ => []

/-- The sessions an operation removes. -/
@[simp] def removes (s : Shared) (i : Nat) : Op → List Removal
  | .remove sid => [{ sid, task := i, swept := false }]
  | .sweep r order => (s.sessionsOf r order).map fun d => { sid := d.1, task := i, swept := true }
  | _ => []

/-- The robot and session events an operation decides on, ends apart. -/
@[simp] def notes (s : Shared) : Op → List Notice
  | .register r => if s.agents[r]? = none then [.online r] else []
  | .sweep r _ => [.offline r]
  | .note n => [n]
  | _ => []

/-- The events an operation emits. -/
@[simp] def emits : Op → List Event
  | .emit e => [e]
  | _ => []

variable {s : Shared} {i : Nat} {op : Op}

theorem apply_remove {sid : String} (h : (Op.remove sid).Enabled s i) :
    (Op.remove sid).apply s i = { s with
      sessions := s.sessions.erase sid
      removed := s.removed ++ [{ sid, task := i, swept := false }] } := by
  obtain ⟨x, hx⟩ := h
  simp only [apply, Shared.removeSession, hx]

theorem apply_sweep {r : String} {order : List String} (hr : s.agents[r]? = some i) :
    (Op.sweep r order).apply s i = { s with
      agents := s.agents.erase r
      sessions := (s.sessionsOf r order).foldl (fun m d => m.erase d.1) s.sessions
      removed := s.removed ++ (s.sessionsOf r order).map fun d =>
        { sid := d.1, task := i, swept := true }
      noted := s.noted ++ [(i, .offline r)] } := by
  simp only [apply, Shared.disconnectAgent, if_pos hr]

theorem apply_register (r : String) :
    (Op.register r).apply s i = { s with
      agents := s.agents.insert r i
      noted := s.noted ++ (if s.agents[r]? = none then [(i, .online r)] else []) } := by
  cases hr : s.agents[r]? with
  | none => simp [apply, Shared.registerAgent, Shared.note, hr]
  | some tx => simp [apply, Shared.registerAgent, hr]

variable (h : op.Enabled s i)
include h

theorem apply_opened : (op.apply s i).opened = s.opened ++ op.opens := by
  cases op with
  | insert sid x => rfl
  | remove sid => simp [apply_remove h]
  | sweep r order => simp [apply_sweep h.1]
  | register r => simp [apply_register]
  | _ => exact (append_nil _).symm

theorem apply_removed :
    (op.apply s i).removed = s.removed ++ op.removes s i := by
  cases op with
  | remove sid => simp [apply_remove h]
  | sweep r order => simp [apply_sweep h.1]
  | register r => simp [apply_register]
  | _ => exact (append_nil _).symm

theorem apply_noted :
    (op.apply s i).noted = s.noted ++ (op.notes s).map (i, ·) := by
  cases op with
  | remove sid => simp [apply_remove h]
  | sweep r order => simp [apply_sweep h.1]
  | register r =>
    rw [apply_register, notes]
    split <;> rfl
  | note n => rfl
  | _ => exact (append_nil _).symm

theorem apply_events :
    (op.apply s i).events = s.events ++ op.emits.map (i, ·) := by
  cases op with
  | remove sid => simp [apply_remove h]
  | sweep r order => simp [apply_sweep h.1]
  | register r => simp [apply_register]
  | emit e => rfl
  | _ => exact (append_nil _).symm

/-- An operation appends to queues and closes them, nothing else. -/
theorem apply_channels (tx : Tx) :
    (op.apply s i).channels tx =
      match op with
      | .send tx' d => if tx = tx' then (s.channels tx).push d else s.channels tx
      | .close => if tx = i then { s.channels tx with closed := true } else s.channels tx
      | _ => s.channels tx := by
  cases op with
  | send tx' d =>
    by_cases htx : tx = tx'
    · subst htx
      simp [apply, Shared.send, Shared.setChannel]
    · simp [apply, Shared.send, Shared.setChannel, htx]
  | close =>
    by_cases htx : tx = i
    · subst htx
      simp [apply, Shared.close, Shared.setChannel]
    · simp [apply, Shared.close, Shared.setChannel, htx]
  | register r => simp [apply_register]
  | sweep r order => simp [apply_sweep h.1]
  | remove sid => rw [apply_remove h]
  | _ => rfl

theorem queue_cases {tx : Tx} {d : Delivery} (hd : d ∈ ((op.apply s i).channels tx).queue) :
    d ∈ (s.channels tx).queue ∨ op = .send tx d := by
  rw [apply_channels h] at hd
  cases op with
  | send tx' d' =>
    dsimp only at hd
    split at hd
    · rename_i htx
      subst htx
      rcases Channel.mem_push hd with hd | rfl
      · exact .inl hd
      · exact .inr rfl
    · exact .inl hd
  | close =>
    dsimp only at hd
    split at hd <;> exact .inl hd
  | _ => exact .inl hd

/-- The registered agent changes with registrations and sweeps only. -/
theorem apply_agents (r : String) :
    (op.apply s i).agents[r]? =
      match op with
      | .register r' => if r' = r then some i else s.agents[r]?
      | .sweep r' _ => if r' = r then none else s.agents[r]?
      | _ => s.agents[r]? := by
  cases op with
  | register r' => simp [apply_register, Std.ExtTreeMap.getElem?_insert]
  | sweep r' order => simp [apply_sweep h.1, Std.ExtTreeMap.getElem?_erase]
  | remove sid => rw [apply_remove h]
  | _ => rfl

end Op

variable {s : Shared} {i : Nat} {t t' : Task} {op : Op}

theorem Move.enabled (h : Move s i t op t') :
    op.Enabled s i := by
  cases h with
  | agent h =>
    cases h with
    | remove hx => exact ⟨_, hx⟩
    | sweep hr horder => exact ⟨hr, horder⟩
    | start => exact ⟨_, rfl⟩
    | _ => trivial
  | operator h =>
    cases h with
    | insert hfresh _ htx => exact ⟨hfresh, htx⟩
    | remove hx => exact ⟨_, hx⟩
    | final hx => exact ⟨_, hx⟩
    | _ => trivial
  | _ => trivial

/-! ## The sweep -/

open Shared

theorem mem_sessionsOf {r : String} {order : List String}
    (horder : order.Perm s.sessions.keys) {sid : String} {x : Session} :
    (sid, x) ∈ s.sessionsOf r order ↔ s.sessions[sid]? = some x ∧ x.robotId = r := by
  simp only [sessionsOf, mem_filterMap, Option.map_eq_some_iff,
    Option.filter_eq_some_iff,
    decide_eq_true_eq, Prod.mk.injEq]
  constructor
  · rintro ⟨k, -, y, ⟨hy, hr⟩, rfl, rfl⟩
    exact ⟨hy, hr⟩
  rintro ⟨hx, hr⟩
  refine ⟨sid, ?_, x, ⟨hx, hr⟩, rfl, rfl⟩
  rw [horder.mem_iff, Std.ExtTreeMap.mem_keys, ← Std.ExtTreeMap.isSome_getElem?_iff_mem, hx]
  rfl

theorem nodup_sessionsOf {r : String} {order : List String}
    (horder : order.Perm s.sessions.keys) : ((s.sessionsOf r order).map Prod.fst).Nodup := by
  have hnodup : order.Nodup := horder.nodup_iff.mpr Std.ExtTreeMap.nodup_keys
  have hsub : ((s.sessionsOf r order).map Prod.fst).Sublist order := by
    clear horder hnodup
    induction order with
    | nil => exact List.Sublist.refl _
    | cons sid order ih =>
      simp only [sessionsOf, filterMap_cons]
      split
      · exact ih.cons _
      rename_i d hd
      obtain ⟨x, -, rfl⟩ := Option.map_eq_some_iff.mp hd
      exact ih.cons_cons _
  exact hsub.nodup hnodup

theorem foldl_erase (dropped : List (String × Session))
    (m : Std.ExtTreeMap String Session compare) (k : String) :
    (dropped.foldl (fun m d => m.erase d.1) m)[k]? =
      if k ∈ dropped.map Prod.fst then none else m[k]? := by
  induction dropped generalizing m with
  | nil => simp
  | cons d dropped ih =>
    rw [foldl_cons, ih, map_cons, Std.ExtTreeMap.getElem?_erase]
    by_cases hk : k = d.1
    · simp [hk]
    have hmem : k ∈ d.1 :: dropped.map Prod.fst ↔ k ∈ dropped.map Prod.fst := by
      rw [mem_cons, or_iff_right hk]
    simp only [hmem, compare_eq_iff_eq, if_neg (Ne.symm hk)]

/-! ## Sessions in the registry -/

/-- The registry holds exactly the sessions opened and not removed, and no
id is opened or removed twice. -/
structure Live (s : Shared) : Prop where
  opened_nodup : (s.opened.map (·.sid)).Nodup
  removed_nodup : (s.removed.map (·.sid)).Nodup
  removed_opened : ∀ rm ∈ s.removed, rm.sid ∈ s.opened.map (·.sid)
  sessions_iff : ∀ sid x, s.sessions[sid]? = some x ↔
    ({ sid, session := x } : Opening) ∈ s.opened ∧ sid ∉ s.removed.map (·.sid)

namespace Live

variable {s : Shared} {i : Nat} {op : Op}

theorem cases_of_opened (h : Live s) {o : Opening} (ho : o ∈ s.opened) :
    s.sessions[o.sid]? = some o.session ∨ o.sid ∈ s.removed.map (·.sid) := by
  by_cases hrm : o.sid ∈ s.removed.map (·.sid)
  · exact .inr hrm
  · exact .inl ((h.sessions_iff o.sid o.session).mpr ⟨ho, hrm⟩)

theorem opening_unique (h : Live s) {o o' : Opening} (ho : o ∈ s.opened) (ho' : o' ∈ s.opened)
    (hsid : o.sid = o'.sid) : o = o' :=
  inj_on_of_nodup_map h.opened_nodup ho ho' hsid

variable {sid : String}

variable (h : Live s)
include h

theorem opened_of_session {x : Session}
    (hx : s.sessions[sid]? = some x) : ({ sid, session := x } : Opening) ∈ s.opened :=
  ((h.sessions_iff sid x).mp hx).1

theorem not_removed {x : Session} (hx : s.sessions[sid]? = some x) :
    sid ∉ s.removed.map (·.sid) :=
  ((h.sessions_iff sid x).mp hx).2

theorem insert (x : Session) (hfresh : sid ∉ s.opened.map (·.sid)) :
    Live (s.insertSession sid x) := by
  have hrm : sid ∉ s.removed.map (·.sid) := by
    intro hmem
    obtain ⟨rm, hrm, rfl⟩ := mem_map.mp hmem
    exact hfresh (h.removed_opened rm hrm)
  refine ⟨?_, h.removed_nodup, ?_, ?_⟩
  · rw [insertSession, map_append]
    exact nodup_snoc h.opened_nodup hfresh
  · intro rm hmem
    rw [insertSession, map_append]
    exact mem_append_left _ (h.removed_opened rm hmem)
  intro k y
  rw [insertSession, Std.ExtTreeMap.getElem?_insert]
  by_cases hk : sid = k
  · subst hk
    have habsent : ∀ y, ({ sid, session := y } : Opening) ∉ s.opened := fun y hmem =>
      hfresh (mem_map_of_mem hmem)
    simp [habsent, hrm, eq_comm]
  · simp [hk, h.sessions_iff, Ne.symm hk]

theorem remove (s' : Shared) (gone : List Removal)
    (hopened : s'.opened = s.opened) (hremoved : s'.removed = s.removed ++ gone)
    (hnodup : (gone.map (·.sid)).Nodup)
    (hgone : ∀ sid ∈ gone.map (·.sid), ∃ x, s.sessions[sid]? = some x)
    (hsessions : ∀ k, s'.sessions[k]? = if k ∈ gone.map (·.sid) then none else s.sessions[k]?) :
    Live s' := by
  refine ⟨hopened ▸ h.opened_nodup, ?_, ?_, ?_⟩
  · rw [hremoved, map_append, nodup_append]
    refine ⟨h.removed_nodup, hnodup, ?_⟩
    intro k hk k' hk' heq
    obtain ⟨x, hx⟩ := hgone k' hk'
    exact h.not_removed hx (heq ▸ hk)
  · intro rm hrm
    rw [hopened]
    rw [hremoved] at hrm
    rcases mem_append.mp hrm with hrm | hrm
    · exact h.removed_opened rm hrm
    · obtain ⟨x, hx⟩ := hgone rm.sid (mem_map_of_mem hrm)
      exact mem_map_of_mem (h.opened_of_session hx)
  intro k x
  rw [hsessions, hopened, hremoved, map_append, mem_append, not_or]
  by_cases hk : k ∈ gone.map (·.sid)
  · simp [hk]
  · rw [if_neg hk, h.sessions_iff]
    simp [hk]

theorem apply (hop : op.Enabled s i) : Live (op.apply s i) := by
  cases op with
  | insert sid x => exact h.insert x hop.1
  | remove sid =>
    refine h.remove _ [⟨sid, i, false⟩] ?_ ?_ (nodup_singleton _) ?_ ?_
    · rw [apply_remove hop]
    · rw [apply_remove hop]
    · intro k hk
      rw [mem_singleton.mp hk]
      exact hop
    intro k
    rw [apply_remove hop, Std.ExtTreeMap.getElem?_erase]
    by_cases hk : sid = k
    · simp [hk]
    · simp [hk, Ne.symm hk]
  | sweep r order =>
    obtain ⟨hr, horder⟩ := hop
    have hmap : ((s.sessionsOf r order).map fun d =>
        ({ sid := d.1, task := i, swept := true } : Removal)).map (·.sid) =
        (s.sessionsOf r order).map Prod.fst := by
      rw [map_map]
      rfl
    refine h.remove _ _ ?_
      (apply_removed ⟨hr, horder⟩) ?_ ?_ ?_
    · rw [apply_sweep hr]
    · rw [removes, hmap]
      exact nodup_sessionsOf horder
    · intro k hk
      rw [removes, hmap] at hk
      obtain ⟨d, hd, rfl⟩ := mem_map.mp hk
      exact ⟨d.2, ((mem_sessionsOf horder).mp hd).1⟩
    · intro k
      rw [removes, hmap, apply_sweep hr, foldl_erase]
  | register r =>
    rw [apply_register]
    exact { h with }
  | idle => exact h
  | close => exact { h with }
  | send tx d => exact { h with }
  | emit e => exact { h with }
  | note n => exact { h with }

theorem sessions_frame (hop : op.Enabled s i)
    (hopens : sid ∉ op.opens.map (·.sid)) (hremoves : sid ∉ (op.removes s i).map (·.sid)) :
    (op.apply s i).sessions[sid]? = s.sessions[sid]? := by
  refine Option.ext fun x => ?_
  have hnew : ({ sid, session := x } : Opening) ∉ op.opens := fun hmem =>
    hopens (mem_map_of_mem (f := Opening.sid) hmem)
  rw [(h.apply hop).sessions_iff, h.sessions_iff, apply_opened hop, apply_removed hop,
    mem_append, map_append, mem_append, or_iff_left hnew, or_iff_left hremoves]

end Live

/-! ## Tasks and what they own -/

/-- The agent may be the registered one of its robot. -/
def AgentPc.registered : AgentPc → Bool
  | .register | .dropping _ | .dropped .. | .done => false
  | _ => true

/-- The session an operator's task has still to remove. -/
def OperatorPc.session : OperatorPc → Option String
  | .ack _ _ sid _ | .request _ _ sid | .loop sid | .unknown sid _ | .remove sid _ | .final sid =>
    some sid
  | _ => none

/-- The sessions a task is about to look up. -/
def Task.mentions : Task → List String
  | .agent _ (.sessionMeta sid) | .agent _ (.started sid _) | .agent _ (.remove sid _) => [sid]
  | .operator pc => pc.session.toList
  | _ => []

/-- The sessions a task has removed and has still to report. -/
def Task.holds : Task → List (String × Session)
  | .agent _ (.ended sid x _) => [(sid, x)]
  | .agent _ (.dropping dropped) => dropped
  | .agent _ (.dropped sid x rest) => (sid, x) :: rest
  | .operator (.ended sid x _) | .operator (.lookup sid x) | .operator (.gone sid x _)
  | .operator (.left sid x) => [(sid, x)]
  | _ => []

/-- A session is an agent's when it is of the agent's robot, an operator's
when the operator opened it. -/
def Task.Owns (i : Nat) (x : Session) : Task → Prop
  | .agent r _ => x.robotId = r
  | .operator _ => x.operatorTx = i
  | _ => False

/-- What the store and task `i` know of each other. -/
structure Owner (s : Shared) (i : Nat) (t : Task) : Prop where
  registered : ∀ r, s.agents[r]? = some i → ∃ pc, t = .agent r pc ∧ pc.registered = true
  opener : ∀ o ∈ s.opened, o.session.operatorTx = i →
    ∃ pc, t = .operator pc ∧ (o.sid ∉ s.removed.map (·.sid) → pc.session = some o.sid)
  mentions : ∀ sid ∈ t.mentions, ∃ o ∈ s.opened, o.sid = sid ∧ t.Owns i o.session
  holds : ∀ d ∈ t.holds, ({ sid := d.1, session := d.2 } : Opening) ∈ s.opened ∧ t.Owns i d.2
  removals : ∀ rm ∈ s.removed, rm.task = i →
    ∃ o ∈ s.opened, o.sid = rm.sid ∧ t.Owns i o.session

namespace Op

variable {s : Shared} {i : Nat} {op : Op}

theorem mem_opened (h : op.Enabled s i) {o : Opening} (ho : o ∈ s.opened) :
    o ∈ (op.apply s i).opened := by
  rw [apply_opened h]
  exact mem_append_left _ ho

theorem opened_cases (h : op.Enabled s i) {o : Opening} (ho : o ∈ (op.apply s i).opened) :
    o ∈ s.opened ∨ (op = .insert o.sid o.session ∧ o.session.operatorTx = i) := by
  rw [apply_opened h] at ho
  rcases mem_append.mp ho with ho | ho
  · exact .inl ho
  cases op with
  | insert sid x =>
    obtain rfl := mem_singleton.mp ho
    exact .inr ⟨rfl, h.2⟩
  | _ => cases ho

theorem removes_task {rm : Removal} (hrm : rm ∈ op.removes s i) : rm.task = i := by
  cases op with
  | remove sid =>
    obtain rfl := mem_singleton.mp hrm
    rfl
  | sweep r order =>
    obtain ⟨d, -, rfl⟩ := mem_map.mp hrm
    rfl
  | _ => cases hrm

theorem not_removed (h : op.Enabled s i) {sid : String}
    (hrm : sid ∉ (op.apply s i).removed.map (·.sid)) : sid ∉ s.removed.map (·.sid) := by
  rw [apply_removed h, map_append] at hrm
  exact fun hmem => hrm (mem_append_left _ hmem)

/-- A task is registered for a robot by its own registration only. -/
theorem agents_cases (h : op.Enabled s i) {r : String} {j : Nat}
    (hr : (op.apply s i).agents[r]? = some j) :
    (s.agents[r]? = some j ∧ ∀ order, op ≠ .sweep r order) ∨ (j = i ∧ op = .register r) := by
  cases op with
  | register r' =>
    rw [apply_register, Std.ExtTreeMap.getElem?_insert] at hr
    by_cases hr' : r' = r
    · subst hr'
      right
      simpa [eq_comm] using hr
    · left
      simpa [hr'] using hr
  | sweep r' order =>
    rw [apply_sweep h.1, Std.ExtTreeMap.getElem?_erase] at hr
    by_cases hr' : r' = r
    · simp [hr'] at hr
    · left
      simpa [hr'] using hr
  | remove sid =>
    rw [apply_remove h] at hr
    exact .inl ⟨hr, by simp⟩
  | _ => exact .inl ⟨hr, by simp⟩

end Op

namespace Owner

variable {s : Shared} {i : Nat} {t t' : Task} {op : Op}

/-- Another task's operation leaves a task's knowledge intact. -/
theorem frame (hop : op.Enabled s i) {j : Nat} (hj : j ≠ i) (h : Owner s j t) :
    Owner (op.apply s i) j t := by
  refine ⟨?_, ?_, ?_, ?_, ?_⟩
  · intro r hr
    rcases agents_cases hop hr with ⟨hr, -⟩ | ⟨rfl, -⟩
    · exact h.registered r hr
    · exact absurd rfl hj
  · intro o ho htx
    rcases opened_cases hop ho with ho | ⟨-, htx'⟩
    · obtain ⟨pc, rfl, hpc⟩ := h.opener o ho htx
      exact ⟨pc, rfl, fun hrm => hpc (not_removed hop hrm)⟩
    · exact absurd (htx.symm.trans htx') hj
  · intro sid hsid
    obtain ⟨o, ho, hsid, howns⟩ := h.mentions sid hsid
    exact ⟨o, mem_opened hop ho, hsid, howns⟩
  · intro d hd
    obtain ⟨ho, howns⟩ := h.holds d hd
    exact ⟨mem_opened hop ho, howns⟩
  intro rm hrm htask
  rw [apply_removed hop] at hrm
  rcases mem_append.mp hrm with hrm | hrm
  · obtain ⟨o, ho, hsid, howns⟩ := h.removals rm hrm htask
    exact ⟨o, mem_opened hop ho, hsid, howns⟩
  · exact absurd (htask.symm.trans (removes_task hrm)) hj

theorem registered_move (hmove : Move s i t op t') (h : Owner s i t) {r : String}
    (hr : (op.apply s i).agents[r]? = some i) :
    ∃ pc, t' = .agent r pc ∧ pc.registered = true := by
  rcases agents_cases hmove.enabled hr with ⟨hr, hsweep⟩ | ⟨-, rfl⟩
  · obtain ⟨pc, rfl, hpc⟩ := h.registered r hr
    cases hmove with
    | close => exact ⟨pc, rfl, hpc⟩
    | agent hmove =>
      refine ⟨_, rfl, ?_⟩
      cases hmove with
      | stale hstale => exact absurd hr hstale
      | sweep => exact absurd rfl (hsweep _)
      | relay _ _ _ hnext => rcases hnext with rfl | rfl | ⟨why, rfl⟩ <;> rfl
      | announce => cases hpc
      | dropped => cases hpc
      | offline => cases hpc
      | _ => rfl
  cases hmove with
  | agent hmove =>
    cases hmove with
    | register => exact ⟨_, rfl, rfl⟩
    | supersede => exact ⟨_, rfl, rfl⟩
  | operator hmove => cases hmove

section

variable (hlive : Live s) (hmove : Move s i t op t') (h : Owner s i t)
include hlive hmove h

theorem opener_move {o : Opening}
    (ho : o ∈ (op.apply s i).opened) (htx : o.session.operatorTx = i) :
    ∃ pc, t' = .operator pc ∧
      (o.sid ∉ (op.apply s i).removed.map (·.sid) → pc.session = some o.sid) := by
  rcases opened_cases hmove.enabled ho with ho | ⟨rfl, -⟩
  · obtain ⟨pc, rfl, hpc⟩ := h.opener o ho htx
    have hpc : o.sid ∉ (op.apply s i).removed.map (·.sid) → pc.session = some o.sid :=
      fun hrm => hpc (not_removed hmove.enabled hrm)
    have hgone : ∀ {sid : String} {x : Session}, op = .remove sid → s.sessions[sid]? = some x →
        sid ∈ (op.apply s i).removed.map (·.sid) := by
      rintro sid x rfl hx
      have henabled : (remove sid).Enabled s i := ⟨x, hx⟩
      rw [apply_removed henabled]
      simp
    cases hmove with
    | close => exact ⟨pc, rfl, hpc⟩
    | operator hmove =>
      refine ⟨_, rfl, fun hrm => ?_⟩
      have hsid := hpc hrm
      cases hmove with
      | ack => exact hsid
      | request => exact hsid
      | answer hfrom => rcases hfrom with rfl | ⟨c, rfl⟩ <;> exact hsid
      | relay _ _ _ hnext => rcases hnext with rfl | ⟨why, rfl⟩ <;> exact hsid
      | quiet hnext => rcases hnext with rfl | ⟨c, rfl⟩ | ⟨why, rfl⟩ | rfl <;> exact hsid
      | removeNone => exact hsid
      | remove hx =>
        cases hsid
        exact absurd (hgone rfl hx) hrm
      | final hx =>
        cases hsid
        exact absurd (hgone rfl hx) hrm
      | finalNone hnone =>
        cases hsid
        rcases hlive.cases_of_opened ho with hx | hmem
        · rw [hnone] at hx
          cases hx
        · exact absurd hmem hrm
      | _ => cases hsid
  cases hmove with
  | agent hmove => cases hmove
  | operator hmove =>
    cases hmove with
    | insert => exact ⟨_, rfl, fun _ => rfl⟩

theorem mentions_move {sid : String} (hsid : sid ∈ t'.mentions) :
    ∃ o ∈ (op.apply s i).opened, o.sid = sid ∧ t'.Owns i o.session := by
  have hkeep : sid ∈ t.mentions → (∀ x, t.Owns i x → t'.Owns i x) →
      ∃ o ∈ (op.apply s i).opened, o.sid = sid ∧ t'.Owns i o.session := by
    intro hmem howns
    obtain ⟨o, ho, hsid, hown⟩ := h.mentions sid hmem
    exact ⟨o, mem_opened hmove.enabled ho, hsid, howns _ hown⟩
  have henabled := hmove.enabled
  cases hmove with
  | close => exact hkeep hsid fun _ hx => hx
  | agent hmove =>
    cases hmove with
    | relay hx hr _ hnext =>
      have hown := mem_opened henabled (hlive.opened_of_session hx)
      rcases hnext with rfl | rfl | ⟨why, rfl⟩
      · cases hsid
      · obtain rfl := mem_singleton.mp hsid
        exact ⟨_, hown, rfl, hr⟩
      · obtain rfl := mem_singleton.mp hsid
        exact ⟨_, hown, rfl, hr⟩
    | start => exact hkeep hsid fun _ hx => hx
    | _ => cases hsid
  | operator hmove =>
    cases hmove with
    | insert hfresh _ htx =>
      obtain rfl := mem_singleton.mp hsid
      exact ⟨⟨_, _⟩, mem_snoc.mpr (.inr rfl), rfl, htx⟩
    | ack => exact hkeep hsid fun _ hx => hx
    | request => exact hkeep hsid fun _ hx => hx
    | answer hfrom => rcases hfrom with rfl | ⟨c, rfl⟩ <;> exact hkeep hsid fun _ hx => hx
    | relay _ _ _ hnext => rcases hnext with rfl | ⟨why, rfl⟩ <;> exact hkeep hsid fun _ hx => hx
    | quiet hnext =>
      rcases hnext with rfl | ⟨c, rfl⟩ | ⟨why, rfl⟩ | rfl <;> exact hkeep hsid fun _ hx => hx
    | removeNone => exact hkeep hsid fun _ hx => hx
    | ended =>
      obtain rfl := mem_singleton.mp hsid
      obtain ⟨ho, hown⟩ := h.holds _ mem_cons_self
      exact ⟨_, mem_opened henabled ho, rfl, hown⟩
    | lookup hnext => rcases hnext with ⟨tx, rfl⟩ | rfl <;> cases hsid
    | _ => cases hsid
  | _ => cases hsid

theorem holds_move {d : String × Session} (hd : d ∈ t'.holds) :
    ({ sid := d.1, session := d.2 } : Opening) ∈ (op.apply s i).opened ∧ t'.Owns i d.2 := by
  have hkeep : d ∈ t.holds → (∀ x, t.Owns i x → t'.Owns i x) →
      ({ sid := d.1, session := d.2 } : Opening) ∈ (op.apply s i).opened ∧ t'.Owns i d.2 := by
    intro hmem howns
    obtain ⟨ho, hown⟩ := h.holds d hmem
    exact ⟨mem_opened hmove.enabled ho, howns _ hown⟩
  -- a session just removed was mentioned before, so it is the task's
  have hnew : ∀ {sid : String} {x : Session}, s.sessions[sid]? = some x → sid ∈ t.mentions →
      (∀ y, t.Owns i y → t'.Owns i y) →
      ({ sid, session := x } : Opening) ∈ (op.apply s i).opened ∧ t'.Owns i x := by
    intro sid x hx hmem howns
    have ho := hlive.opened_of_session hx
    obtain ⟨o, ho', hsid, hown⟩ := h.mentions sid hmem
    obtain rfl := hlive.opening_unique ho' ho hsid
    exact ⟨mem_opened hmove.enabled ho, howns _ hown⟩
  have henabled := hmove.enabled
  cases hmove with
  | close => exact hkeep hd fun _ hx => hx
  | agent hmove =>
    cases hmove with
    | relay _ _ _ hnext => rcases hnext with rfl | rfl | ⟨why, rfl⟩ <;> cases hd
    | remove hx =>
      obtain rfl := mem_singleton.mp hd
      exact hnew hx (mem_singleton.mpr rfl) fun _ hy => hy
    | sweep hr horder =>
      obtain ⟨hx, hrobot⟩ := (mem_sessionsOf horder).mp hd
      exact ⟨mem_opened henabled (hlive.opened_of_session hx), hrobot⟩
    | announce => exact hkeep hd fun _ hx => hx
    | dropped => exact hkeep (mem_cons_of_mem _ hd) fun _ hx => hx
    | _ => cases hd
  | operator hmove =>
    cases hmove with
    | answer => cases hd
    | relay _ _ _ hnext => rcases hnext with rfl | ⟨why, rfl⟩ <;> cases hd
    | quiet hnext => rcases hnext with rfl | ⟨c, rfl⟩ | ⟨why, rfl⟩ | rfl <;> cases hd
    | remove hx =>
      obtain rfl := mem_singleton.mp hd
      exact hnew hx (mem_singleton.mpr rfl) fun _ hy => hy
    | final hx =>
      obtain rfl := mem_singleton.mp hd
      exact hnew hx (mem_singleton.mpr rfl) fun _ hy => hy
    | lookup hnext => rcases hnext with ⟨tx, rfl⟩ | rfl <;> exact hkeep hd fun _ hx => hx
    | gone => exact hkeep hd fun _ hx => hx
    | _ => cases hd
  | _ => cases hd

end

theorem owns_move (hmove : Move s i t op t') {x : Session} (hx : t.Owns i x) : t'.Owns i x := by
  cases hmove with
  | close => exact hx
  | agent => exact hx
  | operator => exact hx
  | _ => cases hx

variable (hlive : Live s) (hmove : Move s i t op t') (h : Owner s i t)
include hlive hmove h

theorem removes_move {rm : Removal}
    (hrm : rm ∈ op.removes s i) : ∃ o ∈ s.opened, o.sid = rm.sid ∧ t.Owns i o.session := by
  cases hmove with
  | agent hmove =>
    cases hmove with
    | remove hx =>
      obtain rfl := mem_singleton.mp hrm
      exact h.mentions _ (mem_singleton.mpr rfl)
    | sweep hr horder =>
      obtain ⟨d, hd, rfl⟩ := mem_map.mp hrm
      obtain ⟨hx, hrobot⟩ := (mem_sessionsOf horder).mp hd
      exact ⟨_, hlive.opened_of_session hx, rfl, hrobot⟩
    | _ => cases hrm
  | operator hmove =>
    cases hmove with
    | remove hx =>
      obtain rfl := mem_singleton.mp hrm
      exact h.mentions _ (mem_singleton.mpr rfl)
    | final hx =>
      obtain rfl := mem_singleton.mp hrm
      exact h.mentions _ (mem_singleton.mpr rfl)
    | _ => cases hrm
  | _ => cases hrm

theorem removals_move {rm : Removal} (hrm : rm ∈ (op.apply s i).removed) (htask : rm.task = i) :
    ∃ o ∈ (op.apply s i).opened, o.sid = rm.sid ∧ t'.Owns i o.session := by
  have hold : ∃ o ∈ s.opened, o.sid = rm.sid ∧ t.Owns i o.session := by
    rw [apply_removed hmove.enabled] at hrm
    rcases mem_append.mp hrm with hrm | hrm
    · exact h.removals rm hrm htask
    · exact h.removes_move hlive hmove hrm
  obtain ⟨o, ho, hsid, hown⟩ := hold
  exact ⟨o, mem_opened hmove.enabled ho, hsid, owns_move hmove hown⟩

theorem move :
    Owner (op.apply s i) i t' where
  removals := fun _ hrm htask => h.removals_move hlive hmove hrm htask
  registered := fun _ hr => h.registered_move hmove hr
  opener := fun _ ho htx => h.opener_move hlive hmove ho htx
  mentions := fun _ hsid => h.mentions_move hlive hmove hsid
  holds := fun _ hd => h.holds_move hlive hmove hd

end Owner

/-- **The registry and the tasks agree in every interleaving.** -/
theorem live_owner {config : Config} {w : World} (hw : (server config).system.Reachable w) :
    Live w.store ∧ ∀ i, Owner w.store i (w.tasks i) := by
  refine Program.reachable_tasks (P := server config) (I := Live) (J := Owner) ?_ ?_ ?_ hw
  · intro w i a s t _ hlive howner hnext
    obtain ⟨op, rfl, hmove, -⟩ := next_move hnext
    exact ⟨hlive.apply hmove.enabled, (howner i).move hlive hmove,
      fun j hj => (howner j).frame hmove.enabled hj⟩
  · exact ⟨nodup_nil, nodup_nil, by simp [server], by simp [server]⟩
  intro i
  exact ⟨by simp [server], by simp [server], by simp [server, Task.mentions],
    by simp [server, Task.holds], by simp [server]⟩

/-- **The registry names only who is there**, in every interleaving. -/
theorem registry_truthful {config : Config} {w : World}
    (hw : (server config).system.Reachable w) :
    (∀ r i, w.store.agents[r]? = some i → ∃ pc, w.tasks i = .agent r pc ∧ pc.registered = true) ∧
      ∀ sid x, w.store.sessions[sid]? = some x →
        ∃ pc, w.tasks x.operatorTx = .operator pc ∧ pc.session = some sid := by
  obtain ⟨hlive, howner⟩ := live_owner hw
  refine ⟨fun r i => (howner i).registered r, fun sid x hx => ?_⟩
  obtain ⟨pc, htask, hpc⟩ := (howner x.operatorTx).opener _ (hlive.opened_of_session hx) rfl
  exact ⟨pc, htask, hpc (hlive.not_removed hx)⟩

theorem registry_truthful_agent : ∃ w, (server trusting).system.run
    (server trusting).system.init (agentConnects 0 "r" ++ operatorConnects 1 "r" "s") = some w ∧
      (∃ pc, w.tasks 0 = .agent "r" pc ∧ pc.registered = true) ∧
      ∃ pc, w.tasks 1 = .operator pc ∧ pc.session = some "s" := by
  refine evaluated (fun w => (w.store.agents["r"]?, w.store.sessions["s"]?.map (·.operatorTx)))
    (b := (some 0, some 1)) (by decide +kernel) fun w hrun hw => ?_
  obtain ⟨hagent, hsession⟩ := Prod.mk.inj hw
  obtain ⟨x, hx, htx⟩ := Option.map_eq_some_iff.mp hsession
  obtain ⟨hagents, hsessions⟩ := registry_truthful ⟨_, hrun⟩
  exact ⟨hagents "r" 0 hagent, htx ▸ hsessions "s" x hx⟩

/-! ## The ledger of lifecycle events -/

/-- The events a task has decided on and not yet emitted. -/
@[simp] def Task.owes : Task → List Notice
  | .agent r .online => [.online r]
  | .agent _ (.started sid _) => [.started sid]
  | .agent _ (.ended sid _ _) => [.ended sid]
  | .agent r (.dropping dropped) => dropped.map (fun d => .ended d.1) ++ [.offline r]
  | .agent r (.dropped sid _ rest) => .ended sid :: (rest.map (fun d => .ended d.1) ++ [.offline r])
  | .operator (.ended sid _ _) | .operator (.lookup sid _) | .operator (.gone sid _ _)
  | .operator (.left sid _) => [.ended sid]
  | _ => []

/-- The event a task's next operation emits. -/
def Task.emitting : Task → Option Notice
  | .agent r .online => some (.online r)
  | .agent _ (.started sid _) => some (.started sid)
  | .agent _ (.ended sid _ _) | .agent _ (.dropped sid _ _) => some (.ended sid)
  | .agent r (.dropping []) => some (.offline r)
  | .operator (.ended sid _ _) | .operator (.left sid _) => some (.ended sid)
  | _ => none

theorem Move.emitting {e : Event}
    (h : Move s i t (.emit e) t') : t.emitting = some e.notice := by
  cases h with
  | agent h =>
    cases h with
    | online => rfl
    | offline => rfl
    | started he => rw [he]; rfl
    | ended he => rw [he]; rfl
    | dropped he => rw [he]; rfl
  | operator h =>
    cases h with
    | ended he => rw [he]; rfl
    | left he => rw [he]; rfl

/-- Every event decided on, by the task that decided. A session's end is
decided on by its removal. -/
def Shared.due (s : Shared) : List (Nat × Notice) :=
  s.noted ++ s.removed.map fun rm => (rm.task, .ended rm.sid)

/-- The events emitted, by task. -/
def Shared.emitted (s : Shared) : List (Nat × Notice) := s.events.map fun e => (e.1, e.2.notice)

/-- The events an operation decides on. -/
@[simp] def Op.takes (s : Shared) (i : Nat) (op : Op) : List Notice :=
  op.notes s ++ (op.removes s i).map fun rm => .ended rm.sid

theorem Op.due_apply (h : op.Enabled s i) :
    (op.apply s i).due.Perm (s.due ++ (op.takes s i).map (i, ·)) := by
  have htask : (op.removes s i).map (fun rm => (rm.task, Notice.ended rm.sid)) =
      (op.removes s i).map fun rm => (i, Notice.ended rm.sid) :=
    map_congr_left fun rm hrm => by rw [removes_task hrm]
  rw [due, apply_noted h, apply_removed h, map_append, htask, due, takes,
    map_append, map_map]
  refine perm_iff_count.mpr fun n => ?_
  simp only [count_append, Function.comp_def]
  omega

/-- A move takes on what its operation decides and settles what it emits. -/
theorem Move.owes (h : Move s i t op t') :
    (t.owes ++ op.takes s i).Perm (op.emits.map Event.notice ++ t'.owes) := by
  cases h with
  | close => simp
  | agent h =>
    cases h with
    | register hr => simp [hr]
    | supersede hr => simp [hr]
    | answer hfrom =>
      rcases hfrom with rfl | rfl | ⟨c, rfl⟩ <;> simp
    | relay _ _ _ hnext =>
      rcases hnext with rfl | rfl | ⟨why, rfl⟩ <;> simp
    | sweep =>
      simpa [Function.comp_def] using (perm_append_singleton _ _).symm
    | started he => simp [he]
    | ended he => simp [he]
    | dropped he => simp [he]
    | _ => simp [Event.notice]
  | operator h =>
    cases h with
    | answer hfrom =>
      rcases hfrom with rfl | ⟨c, rfl⟩ <;> simp
    | relay _ _ _ hnext =>
      rcases hnext with rfl | ⟨why, rfl⟩ <;> simp
    | quiet hnext =>
      rcases hnext with rfl | ⟨c, rfl⟩ | ⟨why, rfl⟩ | rfl <;> simp
    | lookup hnext =>
      rcases hnext with ⟨tx, rfl⟩ | rfl <;> simp
    | ended he => simp [he]
    | left he => simp [he]
    | _ => simp
  | _ => simp

/-- **The books balance in every interleaving**: an event is emitted by the
task that decided on it, as often as it decided, or is still owed. -/
theorem ledger {config : Config} {w : World} (hw : (server config).system.Reachable w) :
    Balanced (fun i => (w.tasks i).owes) w.store.due w.store.emitted := by
  refine (server config).system.invariant
    (P := fun w => Balanced (fun i => (w.tasks i).owes) w.store.due w.store.emitted) ?_ ?_ hw
  · intro i n
    rfl
  rintro w ⟨i, a⟩ w' hbal hstep
  obtain ⟨s, t, hnext, rfl⟩ := (server config).step_eq_some.mp hstep
  obtain ⟨op, rfl, hmove, -⟩ := next_move hnext
  refine hbal.step hmove.owes (by simp) ?_ (due_apply hmove.enabled) ?_
  · intro j hj
    simp [Function.update_of_ne hj]
  rw [emitted, apply_events hmove.enabled, map_append, map_map,
    map_map]
  rfl

end Fjarr.Signaling
