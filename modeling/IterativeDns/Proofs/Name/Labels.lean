import IterativeDns.Name
import Mathlib.Data.List.Infix
import Mathlib.Tactic.Tauto

/-!
# Labels of a text

How the labels of a text go together with those of its parts. The label at a cut belongs to both
parts (`pieces_append`), so every label of a part is a part of a label
(`exists_isInfix_of_mem_pieces`), and a text has an empty label only at its ends or where two dots
meet (`nil_mem_pieces`).
-/

namespace IterativeDns

namespace Name

/-! ### Labels of a part of a name -/

theorem pieces_of_dot_not_mem {p : List Char} (h : '.' ∉ p) : pieces p = [p] := by
  induction p with
  | nil => rfl
  | cons c cs ih =>
    rw [List.mem_cons, not_or] at h
    rw [pieces, if_neg (Ne.symm h.1), ih h.2]

/-- Where two texts meet, the last label of one and the first of the other become one label. -/
theorem pieces_append (a b : List Char) :
    ∃ front l r rest, pieces a = front ++ [l] ∧ pieces b = r :: rest ∧
      pieces (a ++ b) = front ++ (l ++ r) :: rest := by
  induction a with
  | nil =>
    obtain ⟨r, rest, hb⟩ := List.exists_cons_of_ne_nil (pieces_ne_nil b)
    exact ⟨[], [], r, rest, rfl, hb, hb⟩
  | cons c a ih =>
    obtain ⟨front, l, r, rest, ha, hb, hab⟩ := ih
    by_cases hc : c = '.'
    · refine ⟨[] :: front, l, r, rest, ?_, hb, ?_⟩
      · rw [pieces, if_pos hc, ha, List.cons_append]
      · rw [List.cons_append, pieces, if_pos hc, hab, List.cons_append]
    · cases front with
      | nil =>
        refine ⟨[], c :: l, r, rest, ?_, hb, ?_⟩
        · simp [pieces, hc, ha]
        · simp [pieces, hc, hab]
      | cons p front =>
        refine ⟨(c :: p) :: front, l, r, rest, ?_, hb, ?_⟩
        · simp [pieces, hc, ha]
        · simp [pieces, hc, hab]

/-- Labels without dots are found again in the name they are joined to. -/
theorem pieces_join {ps : List (List Char)} (hne : ps ≠ []) (hps : ∀ p ∈ ps, '.' ∉ p) :
    pieces (join ps) = ps := by
  induction ps with
  | nil => exact absurd rfl hne
  | cons p ps ih =>
    rw [List.forall_mem_cons] at hps
    cases ps with
    | nil => exact pieces_of_dot_not_mem hps.1
    | cons q qs =>
      have hrest := ih (List.cons_ne_nil q qs) hps.2
      obtain ⟨front, l, r, rest, hp, hdot, hall⟩ := pieces_append p ('.' :: join (q :: qs))
      rw [pieces_of_dot_not_mem hps.1] at hp
      rw [pieces, if_pos rfl, hrest] at hdot
      cases hdot
      have hfront : front = [] ∧ l = p := by
        cases front <;> simp_all
      show pieces (p ++ '.' :: join (q :: qs)) = _
      rw [hall, hfront.1, hfront.2, List.append_nil, List.nil_append]

/-- Every label of a part of a text is a part of one of the text's labels. -/
theorem exists_isInfix_of_mem_pieces {cs part p : List Char} (hpart : part <:+: cs)
    (h : p ∈ pieces part) : ∃ q ∈ pieces cs, p <:+: q := by
  have hbehind : ∀ (a b : List Char), ∀ p ∈ pieces b, ∃ q ∈ pieces (a ++ b), p <:+: q := by
    intro a b p hp
    obtain ⟨front, l, r, rest, -, hb, hab⟩ := pieces_append a b
    rw [hb] at hp
    rw [hab]
    rcases List.mem_cons.1 hp with rfl | hp
    · exact ⟨l ++ p, by simp, (List.suffix_append l p).isInfix⟩
    · exact ⟨p, by simp [hp], List.infix_rfl⟩
  have hbefore : ∀ (a b : List Char), ∀ p ∈ pieces a, ∃ q ∈ pieces (a ++ b), p <:+: q := by
    intro a b p hp
    obtain ⟨front, l, r, rest, ha, -, hab⟩ := pieces_append a b
    rw [ha] at hp
    rw [hab]
    rcases List.mem_append.1 hp with hp | hp
    · exact ⟨p, by simp [hp], List.infix_rfl⟩
    · obtain rfl := List.mem_singleton.1 hp
      exact ⟨p ++ r, by simp, (List.prefix_append p r).isInfix⟩
  obtain ⟨a, b, rfl⟩ := hpart
  obtain ⟨q, hq, hpq⟩ := hbehind a part p h
  obtain ⟨t, ht, hqt⟩ := hbefore (a ++ part) b q hq
  exact ⟨t, ht, hpq.trans hqt⟩

/-! ### Empty labels -/

/-- An empty label behind the first one stands at the end of the text or where two dots meet. -/
theorem nil_mem_tail_pieces {cs : List Char} :
    [] ∈ (pieces cs).tail ↔ cs.getLast? = some '.' ∨ ['.', '.'] <:+: cs := by
  induction cs with
  | nil => simp [pieces]
  | cons c cs ih =>
    have hlast : (c :: cs).getLast? = some '.' ↔
        cs = [] ∧ c = '.' ∨ cs.getLast? = some '.' := by
      cases cs with
      | nil => simp
      | cons d ds => simp
    rw [hlast, List.infix_cons_iff, List.cons_prefix_cons]
    by_cases hc : c = '.'
    · -- the labels that follow the dot are all labels behind the first one
      have hfirst : [] ∈ pieces cs ↔
          (cs = [] ∨ ['.'] <+: cs) ∨ [] ∈ (pieces cs).tail := by
        cases cs with
        | nil => simp [pieces]
        | cons d ds =>
          obtain ⟨p, ps, hds⟩ := List.exists_cons_of_ne_nil (pieces_ne_nil ds)
          by_cases hd : d = '.'
          · simp [pieces, hd]
          · simp [pieces, hd, hds, List.cons_prefix_cons, Ne.symm hd]
      rw [pieces, if_pos hc, List.tail_cons, hfirst, ih]
      simp only [hc, and_true, true_and]
      tauto
    · obtain ⟨p, ps, hcs⟩ := List.exists_cons_of_ne_nil (pieces_ne_nil cs)
      have htail : (pieces (c :: cs)).tail = (pieces cs).tail := by
        simp [pieces, hc, hcs]
      rw [htail, ih]
      simp [hc, Ne.symm hc]

/-- A text has an empty label if it is empty, starts or ends with a dot, or if two dots meet. -/
theorem nil_mem_pieces {cs : List Char} :
    [] ∈ pieces cs ↔
      cs = [] ∨ cs.head? = some '.' ∨ cs.getLast? = some '.' ∨ ['.', '.'] <:+: cs := by
  cases cs with
  | nil => simp [pieces]
  | cons c cs =>
    obtain ⟨p, ps, hcs⟩ := List.exists_cons_of_ne_nil (pieces_ne_nil cs)
    by_cases hc : c = '.'
    · simp [pieces, hc]
    · rw [← nil_mem_tail_pieces]
      simp [pieces, hc, hcs]

end Name

end IterativeDns
