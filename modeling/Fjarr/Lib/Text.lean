/-
Fjarr.Lib.Text — the string functions a text format is read and written
with, on lists of characters: `split_once`, `split_whitespace`, `lines`, and
decimal numbers, each with the law that it takes apart what was put together.
-/
import Mathlib

namespace Fjarr.Lib.Text

open List

/-! ## Splitting -/

/-- What is before and after the first `c`. -/
def splitOnce (c : Char) : List Char → Option (List Char × List Char)
  | [] => none
  | x :: xs => if x = c then some ([], xs) else (splitOnce c xs).map fun p => (x :: p.1, p.2)

variable {c : Char} {s : List Char} {items ls : List (List Char)}

theorem splitOnce_append {a : List Char} (b : List Char) (h : c ∉ a) :
    splitOnce c (a ++ c :: b) = some (a, b) := by
  induction a with
  | nil => simp [splitOnce]
  | cons x xs ih =>
    rw [mem_cons, not_or] at h
    rw [cons_append, splitOnce, if_neg (Ne.symm h.1), ih h.2]
    rfl

/-- The `White_Space` characters of Unicode. -/
def isSpace (c : Char) : Bool :=
  let n := c.toNat
  (9 ≤ n && n ≤ 13) || n = 0x20 || n = 0x85 || n = 0xA0 || n = 0x1680 ||
    (0x2000 ≤ n && n ≤ 0x200A) || n = 0x2028 || n = 0x2029 || n = 0x202F || n = 0x205F ||
    n = 0x3000

def splitWhitespace (s : List Char) : List (List Char) :=
  (s.splitOnP isSpace).filter (!·.isEmpty)

theorem splitWhitespace_flatMap (hne : ∀ s ∈ items, s ≠ [])
    (hsp : ∀ s ∈ items, ∀ c ∈ s, isSpace c = false) :
    splitWhitespace (items.flatMap (' ' :: ·)) = items := by
  have hsplit : (items.flatMap (' ' :: ·)).splitOnP isSpace = [] :: items := by
    induction items with
    | nil => rfl
    | cons s rest ih =>
      have ih := ih (fun t ht => hne t (.tail _ ht)) (fun t ht => hsp t (.tail _ ht))
      rw [flatMap_cons, cons_append, splitOnP_cons_eq_if_modifyHead,
        if_pos (by decide)]
      congr 1
      cases rest with
      | nil => simpa using splitOnP_eq_singleton (hsp s (.head _))
      | cons t rest =>
        rw [flatMap_cons, cons_append, splitOnP_cons_eq_if_modifyHead,
          if_pos (by decide), List.cons.injEq] at ih
        rw [flatMap_cons, cons_append,
          splitOnP_append_cons_of_forall_mem (hsp s (.head _)) ' ' (by decide), ih.2]
  rw [splitWhitespace, hsplit, filter_cons_of_neg (by decide), filter_eq_self]
  intro s hs
  simpa using hne s hs

theorem cons_intercalate (h : items ≠ []) :
    ' ' :: [' '].intercalate items = items.flatMap (' ' :: ·) := by
  induction items with
  | nil => exact absurd rfl h
  | cons s rest ih =>
    cases rest with
    | nil => simp [List.intercalate]
    | cons t rest =>
      rw [intercalate_cons_cons, flatMap_cons, ← ih (cons_ne_nil t rest)]
      simp

theorem mem_intercalate {sep : List Char}
    (h : c ∈ sep.intercalate items) : c ∈ sep ∨ ∃ s ∈ items, c ∈ s := by
  induction items with
  | nil => exact absurd h (by simp [List.intercalate])
  | cons s rest ih =>
    cases rest with
    | nil => exact .inr ⟨s, .head _, by simpa [List.intercalate] using h⟩
    | cons t rest =>
      rw [intercalate_cons_cons, append_assoc, mem_append, mem_append] at h
      obtain h | h | h := h
      · exact .inr ⟨s, .head _, h⟩
      · exact .inl h
      · exact (ih h).imp_right fun ⟨u, hu, hc⟩ => ⟨u, .tail _ hu, hc⟩

/-! ## Lines -/

/-- A line without the carriage return before its end. -/
def stripReturn (s : List Char) : List Char :=
  if s.getLast? = some '\r' then s.dropLast else s

def lines (s : List Char) : List (List Char) :=
  let pieces := s.splitOn '\n'
  pieces.dropLast.map stripReturn ++ (pieces.getLast?.toList.filter (!·.isEmpty))

/-- The lines, each with its end. -/
def unlines (ls : List (List Char)) : List Char := ls.flatMap (· ++ ['\n'])

theorem splitOn_unlines (h : ∀ l ∈ ls, '\n' ∉ l) :
    (unlines ls).splitOn '\n' = ls ++ [[]] := by
  induction ls with
  | nil => rfl
  | cons l rest ih =>
    have hl : ∀ x ∈ l, (x == '\n') = false := by
      intro x hx
      exact beq_false_of_ne fun heq => h l (.head _) (heq ▸ hx)
    have hsplit := splitOnP_append_cons_of_forall_mem hl '\n' rfl (unlines rest)
    rw [unlines, flatMap_cons, append_assoc, singleton_append, splitOn]
    exact hsplit.trans (congrArg (l :: ·) (ih fun m hm => h m (.tail _ hm)))

/-- Lines that are written read back without a return at their end. -/
theorem lines_unlines_map (h : ∀ l ∈ ls, '\n' ∉ l) :
    lines (unlines ls) = ls.map stripReturn := by
  simp [lines, splitOn_unlines h]

/-- Text without white space other than blanks. -/
def Inline (s : List Char) : Prop := ∀ c ∈ s, c = ' ' ∨ isSpace c = false

instance (s : List Char) : Decidable (Inline s) :=
  List.decidableBAll (fun c => c = ' ' ∨ isSpace c = false) s

theorem Inline.append {t : List Char} (hs : Inline s) (ht : Inline t) : Inline (s ++ t) :=
  fun c hc => (mem_append.mp hc).elim (hs c) (ht c)

theorem Inline.intercalate {sep : List Char} (hsep : Inline sep)
    (h : ∀ s ∈ items, Inline s) : Inline (sep.intercalate items) := by
  intro c hc
  obtain hc | ⟨s, hs, hc⟩ := mem_intercalate hc
  · exact hsep c hc
  · exact h s hs c hc

theorem lines_unlines (h : ∀ l ∈ ls, Inline l) :
    lines (unlines ls) = ls := by
  have hnl : ∀ l ∈ ls, '\n' ∉ l := by
    intro l hl hmem
    exact absurd (h l hl _ hmem) (by decide)
  have hcr : ∀ l ∈ ls, l.getLast? ≠ some '\r' := by
    intro l hl hlast
    exact absurd (h l hl _ (mem_of_getLast? hlast)) (by decide)
  rw [lines_unlines_map hnl]
  refine (map_congr_left fun l hl => ?_).trans (map_id ls)
  exact if_neg (hcr l hl)

/-! ## Numbers -/

def isDigit (c : Char) : Bool := 0x30 ≤ c.toNat && c.toNat ≤ 0x39

def digitValue (c : Char) : Nat := c.toNat - 0x30

def digitChar (d : Nat) : Char := Char.ofNat (0x30 + d)

/-- A number in decimal. -/
def decimal (n : Nat) : List Char :=
  if n = 0 then ['0'] else (Nat.digits 10 n).reverse.map digitChar

/-- `str::parse::<u32>`: digits, a plus sign before them at most. -/
def parseU32 (s : List Char) : Option Nat :=
  let digits := if s.head? = some '+' then s.tail else s
  if digits = [] ∨ ¬ digits.all isDigit then none
  else
    let n := Nat.ofDigits 10 (digits.reverse.map digitValue)
    if n < 2 ^ 32 then some n else none

theorem digit_lt_ten {d : Nat} (h : d < 10) :
    isDigit (digitChar d) = true ∧ digitValue (digitChar d) = d := by
  have hall : ∀ d < 10, isDigit (digitChar d) = true ∧ digitValue (digitChar d) = d := by decide
  exact hall d h

theorem isDigit_of_mem_decimal {n : Nat} (h : c ∈ decimal n) : isDigit c = true := by
  unfold decimal at h
  split at h
  · rw [mem_singleton.mp h]
    rfl
  · obtain ⟨d, hd, rfl⟩ := mem_map.mp h
    exact (digit_lt_ten (Nat.digits_lt_base (by decide) (mem_reverse.mp hd))).1

theorem not_mem_decimal (hc : isDigit c = false) (n : Nat) : c ∉ decimal n := by
  intro h
  rw [isDigit_of_mem_decimal h] at hc
  exact Bool.noConfusion hc

theorem decimal_ne_nil (n : Nat) : decimal n ≠ [] := by
  unfold decimal
  split
  · exact cons_ne_nil _ _
  · rename_i hn
    simpa using Nat.digits_ne_nil_iff_ne_zero.mpr hn

theorem ofDigits_decimal (n : Nat) :
    Nat.ofDigits 10 ((decimal n).reverse.map digitValue) = n := by
  unfold decimal
  split
  · rename_i hn
    subst hn
    rfl
  rw [← map_reverse, reverse_reverse, map_map]
  have hid : (Nat.digits 10 n).map (digitValue ∘ digitChar) = Nat.digits 10 n := by
    refine (map_congr_left fun d hd => ?_).trans (map_id _)
    exact (digit_lt_ten (Nat.digits_lt_base (by decide) hd)).2
  rw [hid, Nat.ofDigits_digits]

theorem parseU32_decimal {n : Nat} (h : n < 2 ^ 32) : parseU32 (decimal n) = some n := by
  have hplus : ¬ (decimal n).head? = some '+' := by
    intro hhead
    exact not_mem_decimal rfl n (mem_of_mem_head? hhead)
  have hdigits : (decimal n).all isDigit = true :=
    all_eq_true.mpr fun c hc => isDigit_of_mem_decimal hc
  unfold parseU32
  dsimp only
  rw [if_neg hplus, if_neg (by simp [decimal_ne_nil, hdigits]), ofDigits_decimal, if_pos h]

end Fjarr.Lib.Text
