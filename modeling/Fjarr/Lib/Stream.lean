/-
Fjarr.Lib.Stream — numbered frames, and what a reader takes from a queue
of them.

A stream is a list of frames with increasing numbers. A queue may hold
frames of the stream more than once and out of order; a reader at position
`n` takes each frame newer than the last one it took and passes over the
rest (`taken`). The queue is `Complete` for it when what it takes is
exactly the stream's remainder, and `Seamless` when a reader that starts
at any of its frames has a complete queue behind that frame.

The rules below say how the two survive what a queue goes through: a new
frame at the back, the front popped, and a run of the stream put in front
(`seamless_catchUp`).
-/
import Mathlib

namespace Fjarr.Lib

open List

/-- A frame's number in its stream, and whether decoding can start there. -/
structure Frame where
  seq : Nat
  keyframe : Bool
  deriving DecidableEq, Repr

namespace Stream

/-- Numbers grow along the list. -/
def Increasing (stream : List Frame) : Prop :=
  stream.Pairwise fun f g => f.seq < g.seq

/-- The frames after position `n`. -/
def newer (n : Nat) (stream : List Frame) : List Frame :=
  stream.filter fun f => n < f.seq

/-- What a reader at position `n` takes from a queue, in order. -/
def taken (n : Nat) : List Frame → List Frame
  | [] => []
  | f :: queue => if n < f.seq then f :: taken f.seq queue else taken n queue

/-- The queue holds the whole remainder of the stream for a reader at `n`. -/
def Complete (n : Nat) (stream queue : List Frame) : Prop :=
  taken n queue = newer n stream

/-- Behind every queued frame past `n` the queue is complete. -/
def Seamless (n : Nat) (stream queue : List Frame) : Prop :=
  ∀ f rest, f :: rest <:+ queue → n < f.seq → Complete f.seq stream rest

theorem update_snoc {κ : Type} [DecidableEq κ] (streams : κ → List Frame) (k k' : κ) (f : Frame) :
    Function.update streams k (streams k ++ [f]) k' =
      streams k' ++ if k' = k then [f] else [] := by
  by_cases hk : k' = k
  · subst hk
    simp
  · simp [hk]

/-! ## Newer frames -/

variable {n m : Nat} {stream before behind queue run : List Frame} {f g : Frame}

theorem mem_newer :
    f ∈ newer n stream ↔ f ∈ stream ∧ n < f.seq := by
  simp [newer]

theorem newer_append (n : Nat) (xs ys : List Frame) :
    newer n (xs ++ ys) = newer n xs ++ newer n ys :=
  filter_append xs ys

theorem newer_eq_nil (h : ∀ f ∈ stream, f.seq ≤ n) :
    newer n stream = [] := by
  rw [newer, filter_eq_nil_iff]
  intro f hf
  simpa using h f hf

theorem newer_eq_self (h : ∀ f ∈ stream, n < f.seq) :
    newer n stream = stream := by
  rw [newer, filter_eq_self]
  intro f hf
  simpa using h f hf

theorem newer_newer (h : n ≤ m) (stream : List Frame) :
    newer m (newer n stream) = newer m stream := by
  rw [newer, newer, filter_filter, newer]
  apply filter_congr
  intro f _
  by_cases hm : m < f.seq
  · have hn : n < f.seq := by omega
    simp [hm, hn]
  · simp [hm]

/-- After a frame of the stream comes what stands behind it. -/
theorem newer_split
    (h : Increasing (before ++ f :: behind)) : newer f.seq (before ++ f :: behind) = behind := by
  obtain ⟨-, hbehind, hcross⟩ := pairwise_append.mp h
  have hb : newer f.seq before = [] :=
    newer_eq_nil fun g hg => Nat.le_of_lt (hcross g hg f mem_cons_self)
  have ha : newer f.seq behind = behind :=
    newer_eq_self fun g hg => rel_of_pairwise_cons hbehind hg
  rw [newer_append, hb, nil_append]
  simpa [newer] using ha

theorem newer_cons {rest : List Frame} (h : Increasing stream)
    (hn : newer n stream = f :: rest) : rest = newer f.seq stream := by
  have hf : n < f.seq := (mem_newer.mp (hn ▸ mem_cons_self)).2
  have hinc : Increasing (f :: rest) := hn ▸ List.Pairwise.filter _ h
  have hsplit : newer f.seq ([] ++ f :: rest) = rest := newer_split hinc
  rw [← newer_newer (Nat.le_of_lt hf), hn]
  exact hsplit.symm

/-- Of two successive frames in the newer part the second directly follows
the first in the stream. -/
theorem infix_of_newer {rest : List Frame} (h : Increasing stream)
    (hf : f ∈ stream) (hn : newer f.seq stream = g :: rest) : [f, g] <:+: stream := by
  obtain ⟨before, behind, rfl⟩ := append_of_mem hf
  rw [newer_split h] at hn
  subst hn
  exact ⟨before, rest, by simp⟩

/-! ## What a reader takes -/

theorem taken_eq_nil (h : ∀ f ∈ queue, f.seq ≤ n) :
    taken n queue = [] := by
  induction queue with
  | nil => rfl
  | cons f queue ih =>
    have hf : ¬ n < f.seq := by
      have := h f mem_cons_self
      omega
    rw [taken, if_neg hf]
    exact ih fun g hg => h g (mem_cons_of_mem _ hg)

theorem taken_append_of_le {old : List Frame} (h : ∀ f ∈ old, f.seq ≤ n) :
    taken n (old ++ queue) = taken n queue := by
  induction old with
  | nil => rfl
  | cons f old ih =>
    have hf : ¬ n < f.seq := by
      have := h f mem_cons_self
      omega
    rw [cons_append, taken, if_neg hf]
    exact ih fun g hg => h g (mem_cons_of_mem _ hg)

theorem taken_eq_newer (h : Increasing queue) :
    taken n queue = newer n queue := by
  induction queue generalizing n with
  | nil => rfl
  | cons f queue ih =>
    have hq : Increasing queue := List.Pairwise.of_cons h
    have hgt : ∀ g ∈ queue, f.seq < g.seq := fun g hg => rel_of_pairwise_cons h hg
    by_cases hf : n < f.seq
    · rw [taken, if_pos hf, ih hq, newer_eq_self hgt]
      have hall : ∀ g ∈ f :: queue, n < g.seq := by
        intro g hg
        rcases mem_cons.mp hg with rfl | hg
        · exact hf
        · have := hgt g hg
          omega
      rw [newer_eq_self hall]
    · rw [taken, if_neg hf, ih hq]
      simp [newer, hf]

theorem taken_snoc (h : ∀ f ∈ queue, f.seq < g.seq)
    (hn : n < g.seq) : taken n (queue ++ [g]) = taken n queue ++ [g] := by
  induction queue generalizing n with
  | nil => simp [taken, hn]
  | cons f queue ih =>
    have hq : ∀ f ∈ queue, f.seq < g.seq := fun f hf => h f (mem_cons_of_mem _ hf)
    rw [cons_append, taken, taken]
    split
    · rw [ih hq (h f mem_cons_self), cons_append]
    · exact ih hq hn

/-! ## Complete queues -/

theorem complete_cons_of_le (h : f.seq ≤ n) :
    Complete n stream (f :: queue) ↔ Complete n stream queue := by
  rw [Complete, taken, if_neg (by omega), Complete]

theorem Complete.front
    (h : Complete n stream (f :: queue)) (hf : n < f.seq) :
    newer n stream = f :: taken f.seq queue := by
  rw [Complete, taken, if_pos hf] at h
  exact h.symm

theorem Complete.snoc
    (h : Complete n stream queue) (hq : ∀ f ∈ queue, f.seq < g.seq) (hn : n < g.seq) :
    Complete n (stream ++ [g]) (queue ++ [g]) := by
  rw [Complete, taken_snoc hq hn, h, newer_append]
  simp [newer, hn]

/-- A run of the stream in front of a queue that is complete behind the
run's last frame is complete behind its first. -/
theorem complete_catchUp
    (hs : Increasing (before ++ f :: run ++ behind))
    (h : Complete ((f :: run).getLast (List.cons_ne_nil f run)).seq
      (before ++ f :: run ++ behind) queue) :
    Complete f.seq (before ++ f :: run ++ behind) (run ++ queue) := by
  induction run generalizing before f with
  | nil => exact h
  | cons g run ih =>
    have heq : before ++ f :: g :: run ++ behind = (before ++ [f]) ++ g :: run ++ behind := by
      simp
    rw [heq] at hs h ⊢
    have hg : Complete g.seq (before ++ [f] ++ g :: run ++ behind) (run ++ queue) :=
      ih hs (by rwa [getLast_cons (cons_ne_nil g run)] at h)
    have hsplit : before ++ [f] ++ g :: run ++ behind = before ++ f :: (g :: run ++ behind) := by
      simp
    have hfg : f.seq < g.seq := by
      rw [hsplit] at hs
      obtain ⟨-, hbehind, -⟩ := pairwise_append.mp hs
      exact rel_of_pairwise_cons hbehind (by simp)
    rw [Complete, cons_append, taken, if_pos hfg, hg]
    rw [hsplit] at hs ⊢
    have hf' : newer f.seq (before ++ f :: (g :: run ++ behind)) = g :: (run ++ behind) :=
      newer_split hs
    rw [hf', ← newer_cons hs hf']

/-! ## Seamless queues -/

theorem seamless_nil (n : Nat) (stream : List Frame) : Seamless n stream [] := by
  intro f rest h
  simp at h

theorem seamless_cons :
    Seamless n stream (f :: queue) ↔
      (n < f.seq → Complete f.seq stream queue) ∧ Seamless n stream queue := by
  constructor
  · intro h
    refine ⟨h f queue suffix_rfl, fun g rest hg => ?_⟩
    exact h g rest (hg.trans (suffix_cons f queue))
  rintro ⟨hf, hq⟩ g rest hg
  rcases suffix_cons_iff.mp hg with heq | hg
  · obtain ⟨rfl, rfl⟩ := List.cons.inj heq
    exact hf
  · exact hq g rest hg

theorem Seamless.suffix {queue' : List Frame}
    (h : Seamless n stream queue) (hq : queue' <:+ queue) : Seamless n stream queue' :=
  fun f rest hf => h f rest (hf.trans hq)

/-- A reader further on asks for less. -/
theorem Seamless.mono (h : Seamless n stream queue)
    (hmn : n ≤ m) : Seamless m stream queue :=
  fun f rest hf hm => h f rest hf (Nat.lt_of_le_of_lt hmn hm)

theorem Seamless.snoc
    (h : Seamless n stream queue) (hs : ∀ f ∈ stream, f.seq < g.seq)
    (hq : ∀ f ∈ queue, f.seq < g.seq) : Seamless n (stream ++ [g]) (queue ++ [g]) := by
  induction queue with
  | nil =>
    refine seamless_cons.mpr ⟨fun _ => ?_, seamless_nil _ _⟩
    have hle : ∀ f ∈ stream ++ [g], f.seq ≤ g.seq := by
      intro f hf
      rcases mem_append.mp hf with hf | hf
      · exact Nat.le_of_lt (hs f hf)
      · rw [mem_singleton.mp hf]
    rw [Complete, newer_eq_nil hle]
    rfl
  | cons f queue ih =>
    rw [seamless_cons] at h
    have hq' : ∀ f ∈ queue, f.seq < g.seq := fun f hf => hq f (mem_cons_of_mem _ hf)
    refine seamless_cons.mpr ⟨fun hn => ?_, ih h.2 hq'⟩
    exact (h.1 hn).snoc hq' (hq f mem_cons_self)

/-- **Catching up.** A run of the stream in front of a seamless queue that
is complete behind the run's last frame is seamless. -/
theorem seamless_catchUp
    (hs : Increasing (before ++ run ++ behind)) (hq : Seamless n (before ++ run ++ behind) queue)
    (hlast : ∀ f, run.getLast? = some f → n < f.seq →
      Complete f.seq (before ++ run ++ behind) queue) :
    Seamless n (before ++ run ++ behind) (run ++ queue) := by
  induction run generalizing before with
  | nil => exact hq
  | cons f run ih =>
    have heq : before ++ f :: run ++ behind = (before ++ [f]) ++ run ++ behind := by simp
    refine seamless_cons.mpr ⟨fun hn => ?_, ?_⟩
    · refine complete_catchUp hs (hlast _ (getLast?_eq_some_getLast _) ?_)
      -- the last frame of the run is no older than its first
      have hle : f.seq ≤ ((f :: run).getLast (cons_ne_nil f run)).seq := by
        have hrun : Increasing (f :: run) :=
          (pairwise_append.mp (pairwise_append.mp hs).1).2.1
        rcases mem_cons.mp (getLast_mem (cons_ne_nil f run)) with h | h
        · rw [h]
        · exact Nat.le_of_lt (rel_of_pairwise_cons hrun h)
      omega
    rw [heq] at hs hq hlast ⊢
    refine ih hs hq fun g hg => hlast g ?_
    rw [getLast?_cons, hg]
    rfl

/-! ## Queues that are an end of the stream -/

theorem Increasing.of_suffix (h : Increasing stream)
    (hq : queue <:+ stream) : Increasing queue :=
  List.Pairwise.sublist hq.sublist h

theorem complete_of_suffix (h : Increasing stream)
    (hq : queue <:+ stream) (hall : ∀ f ∈ stream, n < f.seq → f ∈ queue) :
    Complete n stream queue := by
  rw [Complete, taken_eq_newer (h.of_suffix hq)]
  obtain ⟨before, rfl⟩ := hq
  have hnil : newer n before = [] := by
    refine newer_eq_nil fun f hf => ?_
    by_contra hlt
    have hmem := hall f (mem_append_left _ hf) (by omega)
    have := (pairwise_append.mp h).2.2 f hf f hmem
    omega
  rw [newer_append, hnil, nil_append]

theorem Complete.mono (h : Complete n stream queue)
    (hq : Increasing queue) (hmn : n ≤ m) : Complete m stream queue := by
  rw [Complete, taken_eq_newer hq] at h ⊢
  rw [← newer_newer hmn queue, h, newer_newer hmn]

/-- **Joining in the middle.** A run in front of a complete queue leaves it
complete when the first frame it has for the reader is the stream's next. -/
theorem Complete.catchUp (hs : Increasing stream)
    (hseam : Seamless n stream (run ++ queue)) (hq : Complete n stream queue)
    (hnext : ∀ f, run.find? (fun f => n < f.seq) = some f →
      stream.find? (fun f => n < f.seq) = some f) : Complete n stream (run ++ queue) := by
  cases hfind : run.find? (fun f => n < f.seq) with
  | none =>
    have hle : ∀ f ∈ run, f.seq ≤ n := by
      intro f hf
      simpa using find?_eq_none.mp hfind f hf
    rw [Complete, taken_append_of_le hle]
    exact hq
  | some f =>
    obtain ⟨hf, old, new, rfl, hold⟩ := find?_eq_some_iff_append.mp hfind
    have hn : n < f.seq := by simpa using hf
    have hle : ∀ g ∈ old, g.seq ≤ n := by
      intro g hg
      simpa using hold g hg
    have hhead : (newer n stream).head? = some f := by
      rw [newer, head?_filter]
      exact hnext f hfind
    obtain ⟨rest, hrest⟩ := head?_eq_some_iff.mp hhead
    have hbehind : Complete f.seq stream (new ++ queue) :=
      hseam f (new ++ queue) ⟨old, by simp⟩ hn
    rw [Complete, append_assoc, taken_append_of_le hle, cons_append, taken, if_pos hn,
      hbehind, hrest, newer_cons hs hrest]

end Stream

end Fjarr.Lib
