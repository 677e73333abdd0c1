import TuneScript.Grammar.Operands
import TuneScript.Proofs.Spelling

/-!
Reading expressions word by word agrees with their spelling. From the spelling to the
reading, each strength of operators is read into its own part of the group at hand; from
the reading to the spelling, what has been read of an expression is at every word the
spelling of the parts that the groups hold.
-/

namespace TuneScript

namespace Operands

/-- Reads several words; what is looked for in between is left out. -/
def run : Operands → List Lexeme → Option Operands
  | s, [] => some s
  | s, l :: ls => (s.step l).bind fun (t, _) => run t ls

theorem run_append (s : Operands) (ls ms : List Lexeme) :
    s.run (ls ++ ms) = (s.run ls).bind fun t => t.run ms := by
  induction ls generalizing s with
  | nil => rfl
  | cons l ls ih =>
      simp only [List.cons_append, run]
      cases s.step l with
      | none => rfl
      | some r => exact ih r.1

theorem run_append_of_eq {s t : Operands} {ls : List Lexeme} (h : s.run ls = some t)
    (ms : List Lexeme) : s.run (ls ++ ms) = t.run ms := by
  rw [run_append, h]
  rfl

/-- The group at hand, those around it, and the comparison that ends here. -/
def current? : Operands → Option (Group × List Group × Logic)
  | awaiting _ _ => none
  | arith g outer a => some (g, outer, g.related (g.total a))
  | logic g outer e => some (g, outer, g.negated e)

theorem finish?_eq {s : Operands} {g : Group} {e : Logic} (h : s.current? = some (g, [], e)) :
    s.finish? = some (g.disjunction e) := by
  cases s with
  | awaiting _ _ => simp [current?] at h
  | arith g' outer a | logic g' outer a =>
      simp only [current?, Option.some.injEq, Prod.mk.injEq] at h
      obtain ⟨rfl, rfl, rfl⟩ := h
      rfl

theorem step_connective {s : Operands} {g : Group} {outer : List Group} {e : Logic}
    (h : s.current? = some (g, outer, e)) (hg : g.logical = true) :
    (∃ f, s.step (.keyword .and) = some (awaiting (connect g e .and) outer, f)) ∧
      ∃ f, s.step (.keyword .or) = some (awaiting (connect g e .or) outer, f) := by
  cases s with
  | awaiting _ _ => simp [current?] at h
  | arith g' outer' a | logic g' outer' a =>
      simp only [current?, Option.some.injEq, Prod.mk.injEq] at h
      obtain ⟨rfl, rfl, rfl⟩ := h
      simp [step, afterConnective, hg]

/-- A group that has been closed is one operand, of arithmetic if it held nothing else. -/
theorem step_closeParen {s : Operands} {g parent : Group} {outer : List Group} {e : Logic}
    (h : s.current? = some (g, parent :: outer, e)) :
    ∃ t f, s.step (.mark .closeParen) = some (t, f) ∧
      (t = logic parent outer (g.disjunction e) ∨
        ∃ a, g.disjunction e = .arith a ∧ t = arith parent outer a) := by
  cases s with
  | awaiting _ _ => simp [current?] at h
  | arith g' outer' a =>
      simp only [current?, Option.some.injEq, Prod.mk.injEq] at h
      obtain ⟨rfl, rfl, rfl⟩ := h
      simp only [step, closeGroup]
      split
      · next hg =>
        simp only [Group.isArith, Bool.and_eq_true, Option.isNone_iff_eq_none] at hg
        refine ⟨_, _, rfl, .inr ⟨_, ?_, rfl⟩⟩
        simp [Group.disjunction, Group.conjunction, Group.connected, Group.related, hg]
      · exact ⟨_, _, rfl, .inl rfl⟩
  | logic g' outer' e' =>
      simp only [current?, Option.some.injEq, Prod.mk.injEq] at h
      obtain ⟨rfl, rfl, rfl⟩ := h
      exact ⟨_, _, rfl, .inl rfl⟩

end Operands

namespace Group

theorem admitsLogic_iff (g : Group) :
    g.admitsLogic = true ↔ g.logical = true ∧ g.sum = none ∧ g.product = none ∧
      (g.pending = none ∨ g.pending = some .negation) := by
  obtain ⟨_, _, _, pending, _, _⟩ := g
  rcases pending with _ | _ | ⟨_, _⟩ <;> simp [admitsLogic, and_assoc]

end Group

namespace Phrase

open Operands

/-- What reading the words of a phrase leads to, from wherever such a phrase may start. The
operators of the phrase that still wait for their right side are kept in the group. -/
def Reads : Phrase → List Lexeme → Prop
  | factor a, ls => ∀ g outer, (awaiting g outer).run ls = some (arith g outer a)
  | term a, ls => ∀ g outer, g.product = none → ∃ product b,
      (awaiting g outer).run ls = some (arith { g with product } outer b) ∧
        Group.applyPending product b = a
  | sum a, ls => ∀ g outer, g.sum = none → g.product = none → ∃ sum product b,
      (awaiting g outer).run ls = some (arith { g with sum, product } outer b) ∧
        Group.applyPending sum (Group.applyPending product b) = a
  | primary e, ls => ∀ g outer, g.admitsLogic = true →
      (awaiting g outer).run ls = some (logic g outer e) ∨ ∃ sum product b,
        (awaiting g outer).run ls = some (arith { g with sum, product } outer b) ∧
          e = .arith (Group.applyPending sum (Group.applyPending product b))
  | comparison e, ls => ∀ g outer, g.admitsLogic = true → g.pending = none → ∃ s h,
      (awaiting g outer).run ls = some s ∧ s.current? = some (h, outer, e) ∧
        h.logical = true ∧ h.disjunct = g.disjunct ∧ h.conjunct = g.conjunct
  | conjunction e, ls => ∀ g outer, g.admitsLogic = true → g.pending = none →
      g.conjunct = none → ∃ s h c,
        (awaiting g outer).run ls = some s ∧ s.current? = some (h, outer, c) ∧
          h.logical = true ∧ h.disjunct = g.disjunct ∧ h.conjunction c = e
  | disjunction e, ls => ∀ outer, ∃ s h c,
      (awaiting { logical := true } outer).run ls = some s ∧
        s.current? = some (h, outer, c) ∧ h.logical = true ∧ h.disjunction c = e
  | _, _ => True

theorem reads_arithGroup {a : Arith} {ls : List Lexeme} (h : (sum a).Reads ls) :
    (factor a).Reads (grouped ls) := by
  intro g outer
  obtain ⟨s, p, b, hrun, hb⟩ := h { logical := g.admitsLogic } (g :: outer) rfl rfl
  simp only [grouped, run, step, Option.bind_some]
  rw [run_append_of_eq hrun]
  simp [run, step, closeGroup, Group.isArith, Group.total, Group.term, hb]

theorem reads_product {o : Operator} {a b : Arith} {la lb : List Lexeme}
    (ho : o.isProduct = true) (ha : (term a).Reads la) (hb : (factor b).Reads lb) :
    (term (.binary o a b)).Reads (la ++ .mark (.operator o) :: lb) := by
  intro g outer hg
  obtain ⟨p, c, hrun, hc⟩ := ha g outer hg
  rw [run_append_of_eq hrun]
  have hstep : (arith { g with product := p } outer c).run (.mark (.operator o) :: lb) =
      (awaiting { g with product := some (a, o) } outer).run lb := by
    cases o <;> simp_all [Operator.isProduct, run, step, afterOperator, Group.term]
  exact ⟨some (a, o), b, by rw [hstep, hb], rfl⟩

theorem reads_sum {o : Operator} {a b : Arith} {la lb : List Lexeme}
    (ho : o.isProduct = false) (ha : (sum a).Reads la) (hb : (term b).Reads lb) :
    (sum (.binary o a b)).Reads (la ++ .mark (.operator o) :: lb) := by
  intro g outer hs hp
  obtain ⟨s, p, c, hrun, hc⟩ := ha g outer hs hp
  rw [run_append_of_eq hrun]
  have hstep : (arith { g with sum := s, product := p } outer c).run
      (.mark (.operator o) :: lb) =
      (awaiting { g with sum := some (a, o), product := none } outer).run lb := by
    cases o <;> simp_all [Operator.isProduct, run, step, afterOperator, Group.total, Group.term]
  obtain ⟨q, d, hd, hq⟩ := hb { g with sum := some (a, o), product := none } outer rfl
  exact ⟨some (a, o), q, d, by rw [hstep, hd], by rw [hq]; rfl⟩

theorem reads_logicGroup {e : Logic} {ls : List Lexeme} (h : (disjunction e).Reads ls) :
    (primary e).Reads (grouped ls) := by
  intro g outer hg
  obtain ⟨s, k, c, hrun, hs, -, he⟩ := h (g :: outer)
  obtain ⟨t, f, ht, hcases⟩ := step_closeParen hs
  have hrun' : (awaiting g outer).run (grouped ls) = some t := by
    simp only [grouped, run, step, hg, Option.bind_some]
    rw [run_append_of_eq hrun]
    simp [run, ht]
  rw [he] at hcases
  rcases hcases with rfl | ⟨a, rfl, rfl⟩
  · exact .inl hrun'
  · obtain ⟨-, hs, hp, -⟩ := (Group.admitsLogic_iff g).1 hg
    exact .inr ⟨g.sum, g.product, a, hrun', by rw [hs, hp]; rfl⟩

theorem reads_compare {r : Relation} {a b : Arith} {la lb : List Lexeme}
    (ha : (sum a).Reads la) (hb : (sum b).Reads lb) :
    (comparison (.compare r a b)).Reads (la ++ .mark (.relation r) :: lb) := by
  intro g outer hg hpending
  obtain ⟨hlogical, hs, hp, -⟩ := (Group.admitsLogic_iff g).1 hg
  obtain ⟨s, p, c, hrun, hc⟩ := ha g outer hs hp
  obtain ⟨s', p', d, hrun', hd⟩ :=
    hb { g with pending := some (.comparison a r), sum := none, product := none } outer rfl rfl
  let k : Group := { g with pending := some (.comparison a r), sum := s', product := p' }
  have hstep : (arith { g with sum := s, product := p } outer c).step (.mark (.relation r)) =
      some (awaiting { k with sum := none, product := none } outer, .operand false) := by
    simp [step, hlogical, hpending, Group.total, Group.term, hc, k]
  refine ⟨arith k outer d, k, ?_, ?_, hlogical, rfl, rfl⟩
  · rw [run_append_of_eq hrun, run, hstep]
    exact hrun'
  · simp [current?, Group.related, Group.total, Group.term, hd, k]

theorem reads_negation {e : Logic} {ls : List Lexeme} (h : (primary e).Reads ls) :
    (comparison (.negation e)).Reads (.keyword .not :: ls) := by
  intro g outer hg hpending
  let k : Group := { g with pending := some .negation }
  have hk : k.admitsLogic = true := by
    rw [Group.admitsLogic_iff] at hg ⊢
    exact ⟨hg.1, hg.2.1, hg.2.2.1, .inr rfl⟩
  have hlogical : g.logical = true := ((Group.admitsLogic_iff g).1 hg).1
  have hstep : (awaiting g outer).run (.keyword .not :: ls) = (awaiting k outer).run ls := by
    simp [run, step, hg, hpending, k]
  rcases h k outer hk with hrun | ⟨s, p, b, hrun, rfl⟩
  · exact ⟨logic k outer e, k, hstep.trans hrun, rfl, hlogical, rfl, rfl⟩
  · exact ⟨_, { k with sum := s, product := p }, hstep.trans hrun, rfl, hlogical, rfl, rfl⟩

theorem reads_ofPrimary {e : Logic} {ls : List Lexeme} (h : (primary e).Reads ls) :
    (comparison e).Reads ls := by
  intro g outer hg hpending
  have hlogical : g.logical = true := ((Group.admitsLogic_iff g).1 hg).1
  rcases h g outer hg with hrun | ⟨s, p, b, hrun, rfl⟩
  · refine ⟨_, g, hrun, ?_, hlogical, rfl, rfl⟩
    simp [current?, Group.negated, hpending]
  · refine ⟨_, { g with sum := s, product := p }, hrun, ?_, hlogical, rfl, rfl⟩
    simp [current?, Group.related, Group.total, Group.term, hpending]

theorem reads_conjunction {e f : Logic} {le lf : List Lexeme} (he : (conjunction e).Reads le)
    (hf : (comparison f).Reads lf) :
    (conjunction (.connect .and e f)).Reads (le ++ .keyword .and :: lf) := by
  intro g outer hg hpending hconjunct
  obtain ⟨s, k, c, hrun, hs, hk, hdisjunct, rfl⟩ := he g outer hg hpending hconjunct
  obtain ⟨w, hstep⟩ := (step_connective hs hk).1
  obtain ⟨t, m, hrun', ht, hm, hd, hc⟩ := hf (connect k c .and) outer rfl rfl
  refine ⟨t, m, f, ?_, ht, hm, hd.trans hdisjunct, ?_⟩
  · rw [run_append_of_eq hrun]
    simp [run, hstep, hrun']
  · simp [Group.conjunction, hc, connect, Group.connected]

theorem reads_ofComparison {e : Logic} {ls : List Lexeme} (h : (comparison e).Reads ls) :
    (conjunction e).Reads ls := by
  intro g outer hg hpending hconjunct
  obtain ⟨s, k, hrun, hs, hk, hd, hc⟩ := h g outer hg hpending
  exact ⟨s, k, e, hrun, hs, hk, hd, by simp [Group.conjunction, hc, hconjunct, Group.connected]⟩

theorem reads_disjunction {e f : Logic} {le lf : List Lexeme} (he : (disjunction e).Reads le)
    (hf : (conjunction f).Reads lf) :
    (disjunction (.connect .or e f)).Reads (le ++ .keyword .or :: lf) := by
  intro outer
  obtain ⟨s, k, c, hrun, hs, hk, rfl⟩ := he outer
  obtain ⟨w, hstep⟩ := (step_connective hs hk).2
  obtain ⟨t, m, d, hrun', ht, hm, hd, rfl⟩ := hf (connect k c .or) outer rfl rfl rfl
  refine ⟨t, m, d, ?_, ht, hm, ?_⟩
  · rw [run_append_of_eq hrun]
    simp [run, hstep, hrun']
  · simp [Group.disjunction, hd, connect, Group.connected]

theorem reads_ofConjunction {e : Logic} {ls : List Lexeme} (h : (conjunction e).Reads ls) :
    (disjunction e).Reads ls := by
  intro outer
  obtain ⟨s, k, c, hrun, hs, hk, hd, hc⟩ := h { logical := true } outer rfl rfl rfl
  exact ⟨s, k, c, hrun, hs, hk, by simp [Group.disjunction, hc, hd, Group.connected]⟩

end Phrase

theorem Spells.reads {p : Phrase} {ls : List Lexeme} (h : Spells p ls) : p.Reads ls := by
  induction h with
  | number n | name x => exact fun g outer => rfl
  | arithGroup _ ih => exact Phrase.reads_arithGroup ih
  | ofFactor _ ih => exact fun g outer hp => ⟨g.product, _, ih g outer, by rw [hp]; rfl⟩
  | product ho _ _ iha ihb => exact Phrase.reads_product ho iha ihb
  | ofTerm _ ih =>
      intro g outer hs hp
      obtain ⟨p, b, hrun, hb⟩ := ih g outer hp
      exact ⟨g.sum, p, b, hrun, by rw [hs, hb]; rfl⟩
  | sum ho _ _ iha ihb => exact Phrase.reads_sum ho iha ihb
  | logicGroup _ ih => exact Phrase.reads_logicGroup ih
  | ofSum _ ih =>
      intro g outer hg
      obtain ⟨-, hs, hp, -⟩ := (Group.admitsLogic_iff g).1 hg
      obtain ⟨s, p, b, hrun, rfl⟩ := ih g outer hs hp
      exact .inr ⟨s, p, b, hrun, rfl⟩
  | compare _ _ iha ihb => exact Phrase.reads_compare iha ihb
  | negation _ ih => exact Phrase.reads_negation ih
  | ofPrimary _ ih => exact Phrase.reads_ofPrimary ih
  | conjunction _ _ ihe ihf => exact Phrase.reads_conjunction ihe ihf
  | ofComparison _ ih => exact Phrase.reads_ofComparison ih
  | disjunction _ _ ihe ihf => exact Phrase.reads_disjunction ihe ihf
  | ofConjunction _ ih => exact Phrase.reads_ofConjunction ih
  | _ => trivial

/-- An expression is read from its first word to a place where it may end. -/
theorem Spells.run_empty {e : Logic} {ls : List Lexeme} (h : Spells (.disjunction e) ls) :
    ∃ s, Operands.empty.run ls = some s ∧ s.finish? = some e := by
  obtain ⟨s, k, c, hrun, hs, -, hc⟩ := h.reads []
  exact ⟨s, hrun, by rw [Operands.finish?_eq hs, hc]⟩

/-- What stands before an operand for an operator that waits for it: the spelling of the
left side and the sign. -/
def Waiting {α : Type} (spelled : α → List Lexeme → Prop) (sign : α → Lexeme) :
    Option α → List Lexeme → Prop
  | none, ls => ls = []
  | some x, ls => ∃ l, ls = l ++ [sign x] ∧ spelled x l

namespace Group

def disjunctRead : Option Logic → List Lexeme → Prop :=
  Waiting (fun e => Spells (.disjunction e)) fun _ => .keyword .or

def conjunctRead : Option Logic → List Lexeme → Prop :=
  Waiting (fun e => Spells (.conjunction e)) fun _ => .keyword .and

def pendingRead : Option Pending → List Lexeme → Prop
  | some .negation, ls => ls = [.keyword .not]
  | some (.comparison a r), ls => ∃ l, ls = l ++ [.mark (.relation r)] ∧ Spells (.sum a) l
  | none, ls => ls = []

def sumRead : Option (Arith × Operator) → List Lexeme → Prop :=
  Waiting (fun x ls => x.2.isProduct = false ∧ Spells (.sum x.1) ls) fun x => .mark (.operator x.2)

def productRead : Option (Arith × Operator) → List Lexeme → Prop :=
  Waiting (fun x ls => x.2.isProduct = true ∧ Spells (.term x.1) ls) fun x => .mark (.operator x.2)

/-- The words of a group before the operand at hand, cut by what they wait for. -/
structure Begun (g : Group) (ld lc lp ls lt : List Lexeme) : Prop where
  disjunct : disjunctRead g.disjunct ld
  conjunct : conjunctRead g.conjunct lc
  pending : pendingRead g.pending lp
  sum : sumRead g.sum ls
  product : productRead g.product lt
  arith : g.logical = false → g.isArith = true

theorem begun_fresh (logical : Bool) : Begun { logical } [] [] [] [] [] :=
  ⟨rfl, rfl, rfl, rfl, rfl, fun _ => rfl⟩

variable {g : Group} {a : Arith} {e : Logic} {l ld lc lp ls lt : List Lexeme}

theorem Begun.term (h : g.Begun ld lc lp ls lt) (ha : Spells (.factor a) l) :
    Spells (.term (g.term a)) (lt ++ l) := by
  have ht := h.product
  rw [Group.term]
  cases hg : g.product with
  | none =>
      rw [hg] at ht
      cases ht
      exact .ofFactor ha
  | some x =>
      rw [hg] at ht
      obtain ⟨k, rfl, ho, hk⟩ := ht
      simpa [applyPending] using Spells.product ho hk ha

theorem Begun.total (h : g.Begun ld lc lp ls lt) (ha : Spells (.factor a) l) :
    Spells (.sum (g.total a)) (ls ++ lt ++ l) := by
  have hs := h.sum
  have ht := h.term ha
  rw [Group.total]
  cases hg : g.sum with
  | none =>
      rw [hg] at hs
      cases hs
      exact .ofTerm ht
  | some x =>
      rw [hg] at hs
      obtain ⟨k, rfl, ho, hk⟩ := hs
      simpa [applyPending] using Spells.sum ho hk ht

theorem Begun.related (h : g.Begun ld lc lp ls lt) (ha : Spells (.sum a) l) :
    Spells (.comparison (g.related a)) (lp ++ l) := by
  have hp := h.pending
  rw [Group.related]
  rcases hg : g.pending with _ | _ | ⟨b, r⟩
  · rw [hg] at hp
    cases hp
    exact .ofPrimary (.ofSum ha)
  · rw [hg] at hp
    cases hp
    exact .negation (.ofSum ha)
  · rw [hg] at hp
    obtain ⟨k, rfl, hk⟩ := hp
    simpa using Spells.compare hk ha

theorem Begun.negated (h : g.Begun ld lc lp ls lt) (hg : g.admitsLogic = true)
    (he : Spells (.primary e) l) :
    Spells (.comparison (g.negated e)) (lp ++ l) ∧ ls = [] ∧ lt = [] := by
  obtain ⟨-, hs, ht, hp⟩ := (admitsLogic_iff g).1 hg
  have hsum := h.sum
  have hproduct := h.product
  have hpending := h.pending
  rw [hs] at hsum
  rw [ht] at hproduct
  refine ⟨?_, hsum, hproduct⟩
  rw [Group.negated]
  rcases hp with hp | hp <;> rw [hp] at hpending ⊢ <;> cases hpending
  · exact .ofPrimary he
  · exact .negation he

theorem conjunction_read (hc : conjunctRead g.conjunct lc) (he : Spells (.comparison e) l) :
    Spells (.conjunction (g.conjunction e)) (lc ++ l) := by
  rw [Group.conjunction]
  cases hg : g.conjunct with
  | none =>
      rw [hg] at hc
      cases hc
      exact .ofComparison he
  | some f =>
      rw [hg] at hc
      obtain ⟨k, rfl, hk⟩ := hc
      simpa [connected] using Spells.conjunction hk he

theorem disjunction_read (hd : disjunctRead g.disjunct ld) (hc : conjunctRead g.conjunct lc)
    (he : Spells (.comparison e) l) :
    Spells (.disjunction (g.disjunction e)) (ld ++ lc ++ l) := by
  have hce := conjunction_read hc he
  rw [Group.disjunction]
  cases hg : g.disjunct with
  | none =>
      rw [hg] at hd
      cases hd
      exact .ofConjunction hce
  | some f =>
      rw [hg] at hd
      obtain ⟨k, rfl, hk⟩ := hd
      simpa [connected] using Spells.disjunction hk hce

end Group

namespace Operands

/-- The words before a group: those of the groups around it, each up to its parenthesis. A
group holds more than arithmetic only where the group around it lets it. -/
def OuterBegun : Bool → List Group → List Lexeme → Prop
  | logical, [], ws => logical = true ∧ ws = []
  | logical, g :: outer, ws => ∃ lo ld lc lp ls lt,
      ws = lo ++ (ld ++ lc ++ lp ++ ls ++ lt) ++ [.mark .openParen] ∧
        OuterBegun g.logical outer lo ∧ g.Begun ld lc lp ls lt ∧ logical = g.admitsLogic

/-- The words of an expression that has been read up to some word. -/
def Begun : Operands → List Lexeme → Prop
  | awaiting g outer, ws => ∃ lo ld lc lp ls lt, ws = lo ++ (ld ++ lc ++ lp ++ ls ++ lt) ∧
      OuterBegun g.logical outer lo ∧ g.Begun ld lc lp ls lt
  | arith g outer a, ws => ∃ lo ld lc lp ls lt l, ws = lo ++ (ld ++ lc ++ lp ++ ls ++ lt) ++ l ∧
      OuterBegun g.logical outer lo ∧ g.Begun ld lc lp ls lt ∧ Spells (.factor a) l
  | logic g outer e, ws => ∃ lo ld lc lp ls lt l, ws = lo ++ (ld ++ lc ++ lp ++ ls ++ lt) ++ l ∧
      OuterBegun g.logical outer lo ∧ g.Begun ld lc lp ls lt ∧ Spells (.primary e) l ∧
        g.admitsLogic = true

theorem begun_empty : Begun empty [] :=
  ⟨[], [], [], [], [], [], rfl, ⟨rfl, rfl⟩, Group.begun_fresh true⟩

theorem Begun.eq_nil {ws : List Lexeme} (h : Begun empty ws) : ws = [] := by
  obtain ⟨lo, ld, lc, lp, ls, lt, rfl, ⟨-, rfl⟩, hd, hc, hp, hs, ht, -⟩ := h
  cases hd
  cases hc
  cases hp
  cases hs
  cases ht
  rfl

variable {s t : Operands} {g : Group} {outer : List Group} {a : Arith} {e : Logic} {f : Follow}
  {l : Lexeme} {ws : List Lexeme}

/-- Whatever the operand at hand, a comparison ends with it. -/
theorem Begun.comparison (h : s.Begun ws) (hs : s.current? = some (g, outer, e)) :
    ∃ lo ld lc l, ws = lo ++ (ld ++ lc ++ l) ∧ OuterBegun g.logical outer lo ∧
      Group.disjunctRead g.disjunct ld ∧ Group.conjunctRead g.conjunct lc ∧
      Spells (.comparison e) l ∧ (g.logical = false → g.isArith = true) := by
  cases s with
  | awaiting _ _ => simp [current?] at hs
  | arith k outer' a =>
      simp only [current?, Option.some.injEq, Prod.mk.injEq] at hs
      obtain ⟨rfl, rfl, rfl⟩ := hs
      obtain ⟨lo, ld, lc, lp, ls, lt, l, rfl, ho, hk, ha⟩ := h
      refine ⟨lo, ld, lc, lp ++ (ls ++ lt ++ l), by simp, ho, hk.disjunct, hk.conjunct, ?_,
        hk.arith⟩
      exact hk.related (hk.total ha)
  | logic k outer' e' =>
      simp only [current?, Option.some.injEq, Prod.mk.injEq] at hs
      obtain ⟨rfl, rfl, rfl⟩ := hs
      obtain ⟨lo, ld, lc, lp, ls, lt, l, rfl, ho, hk, he, hlogic⟩ := h
      obtain ⟨hn, rfl, rfl⟩ := hk.negated hlogic he
      exact ⟨lo, ld, lc, lp ++ l, by simp, ho, hk.disjunct, hk.conjunct, hn, hk.arith⟩

theorem begun_connect (h : s.Begun ws) (hs : s.current? = some (g, outer, e))
    (hg : g.logical = true) (c : Connective) :
    (awaiting (connect g e c) outer).Begun
      (ws ++ [.keyword c.keyword]) := by
  obtain ⟨lo, ld, lc, l, rfl, ho, hd, hc, he, -⟩ := h.comparison hs
  rw [hg] at ho
  cases c with
  | and =>
      refine ⟨lo, ld, lc ++ l ++ [.keyword .and], [], [], [], by simp [Connective.keyword], ho, hd,
        ?_, rfl, rfl, rfl, fun h => by cases h⟩
      exact ⟨lc ++ l, rfl, Group.conjunction_read hc he⟩
  | or =>
      refine ⟨lo, ld ++ lc ++ l ++ [.keyword .or], [], [], [], [], by simp [Connective.keyword], ho,
        ?_, rfl, rfl, rfl, rfl, fun h => by cases h⟩
      exact ⟨ld ++ lc ++ l, rfl, Group.disjunction_read hd hc he⟩

theorem begun_afterOperator (h : (arith g outer a).Begun ws) (o : Operator) :
    (afterOperator g outer a o).Begun (ws ++ [.mark (.operator o)]) := by
  obtain ⟨lo, ld, lc, lp, ls, lt, l, rfl, ho, hg, ha⟩ := h
  cases o with
  | mul | div =>
      refine ⟨lo, ld, lc, lp, ls, lt ++ l ++ [_], by simp; rfl, ho, hg.disjunct, hg.conjunct,
        hg.pending, hg.sum, ?_, hg.arith⟩
      exact ⟨lt ++ l, rfl, rfl, hg.term ha⟩
  | add | sub =>
      refine ⟨lo, ld, lc, lp, ls ++ lt ++ l ++ [_], [], by simp; rfl, ho, hg.disjunct,
        hg.conjunct, hg.pending, ?_, rfl, hg.arith⟩
      exact ⟨ls ++ lt ++ l, rfl, rfl, hg.total ha⟩

theorem begun_relation (h : (arith g outer a).Begun ws) (r : Relation)
    (hg : g.logical = true) (hpending : g.pending = none) :
    (awaiting { g with pending := some (.comparison (g.total a) r), sum := none, product := none }
      outer).Begun (ws ++ [.mark (.relation r)]) := by
  obtain ⟨lo, ld, lc, lp, ls, lt, l, rfl, ho, hk, ha⟩ := h
  have hp := hk.pending
  rw [hpending] at hp
  cases hp
  refine ⟨lo, ld, lc, ls ++ lt ++ l ++ [.mark (.relation r)], [], [], by simp, ho, hk.disjunct,
    hk.conjunct, ?_, rfl, rfl, fun h => by rw [hg] at h; cases h⟩
  exact ⟨ls ++ lt ++ l, rfl, hk.total ha⟩

theorem begun_negation (h : (awaiting g outer).Begun ws) (hg : g.admitsLogic = true)
    (hpending : g.pending = none) :
    (awaiting { g with pending := some .negation } outer).Begun (ws ++ [.keyword .not]) := by
  obtain ⟨hlogical, hs, ht, -⟩ := (Group.admitsLogic_iff g).1 hg
  obtain ⟨lo, ld, lc, lp, ls, lt, rfl, ho, hk⟩ := h
  have hsum := hk.sum
  have hproduct := hk.product
  have hp := hk.pending
  rw [hs] at hsum
  rw [ht] at hproduct
  rw [hpending] at hp
  cases hsum
  cases hproduct
  cases hp
  exact ⟨lo, ld, lc, [.keyword .not], [], [], by simp, ho, hk.disjunct, hk.conjunct, rfl, hk.sum,
    hk.product, fun h => by rw [hlogical] at h; cases h⟩

/-- An arithmetic group is a factor again, any other group a primary; the latter stands
only where more than arithmetic may stand. -/
theorem begun_closeGroup (h : s.Begun ws) (ht : closeGroup s = some (t, f)) :
    t.Begun (ws ++ [.mark .closeParen]) := by
  cases s with
  | awaiting _ _ => simp [closeGroup] at ht
  | arith g outer a =>
      cases outer with
      | nil => simp [closeGroup] at ht
      | cons parent outer =>
          simp only [closeGroup] at ht
          split at ht
          · next hg =>
            simp only [Option.some.injEq, Prod.mk.injEq] at ht
            obtain ⟨rfl, -⟩ := ht
            obtain ⟨lo, ld, lc, lp, ls, lt, l, rfl, ho, hk, ha⟩ := h
            obtain ⟨lo', ld', lc', lp', ls', lt', rfl, ho', hk', -⟩ := ho
            simp only [Group.isArith, Bool.and_eq_true, Option.isNone_iff_eq_none] at hg
            have hd := hk.disjunct
            have hc := hk.conjunct
            have hp := hk.pending
            rw [hg.1.1] at hd
            rw [hg.1.2] at hc
            rw [hg.2] at hp
            cases hd
            cases hc
            cases hp
            exact ⟨lo', ld', lc', lp', ls', lt', grouped (ls ++ lt ++ l), by simp [grouped], ho',
              hk', .arithGroup (hk.total ha)⟩
          · next hg =>
            simp only [Option.some.injEq, Prod.mk.injEq] at ht
            obtain ⟨rfl, -⟩ := ht
            obtain ⟨lo, ld, lc, l, rfl, ho, hd, hc, he, harith⟩ := h.comparison rfl
            obtain ⟨lo', ld', lc', lp', ls', lt', rfl, ho', hk', hlogical⟩ := ho
            refine ⟨lo', ld', lc', lp', ls', lt', grouped (ld ++ lc ++ l), by simp [grouped], ho',
              hk', .logicGroup (Group.disjunction_read hd hc he), ?_⟩
            cases hl : g.logical with
            | true => rw [← hlogical, hl]
            | false => exact absurd (harith hl) hg
  | logic g outer e =>
      cases outer with
      | nil => simp [closeGroup] at ht
      | cons parent outer =>
          simp only [closeGroup, Option.some.injEq, Prod.mk.injEq] at ht
          obtain ⟨rfl, -⟩ := ht
          have hg : g.logical = true := by
            obtain ⟨_, _, _, _, _, _, _, -, -, -, -, hlogic⟩ := h
            exact ((Group.admitsLogic_iff g).1 hlogic).1
          obtain ⟨lo, ld, lc, l, rfl, ho, hd, hc, he, -⟩ := h.comparison rfl
          obtain ⟨lo', ld', lc', lp', ls', lt', rfl, ho', hk', hlogical⟩ := ho
          exact ⟨lo', ld', lc', lp', ls', lt', grouped (ld ++ lc ++ l), by simp [grouped], ho', hk',
            .logicGroup (Group.disjunction_read hd hc he), by rw [← hlogical, hg]⟩

theorem begun_afterConnective {u : Operands × Follow} (h : s.Begun ws)
    (hs : s.current? = some (g, outer, e)) (c : Connective)
    (hu : afterConnective g outer e c = some u) :
    u.1.Begun (ws ++ [.keyword c.keyword]) := by
  rw [afterConnective] at hu
  split at hu
  · next hg =>
    cases hu
    exact begun_connect h hs hg c
  · cases hu

/-- One more word of an expression is one more word of its spelling. -/
theorem begun_step {u : Operands × Follow} (h : s.Begun ws) (hu : s.step l = some u) :
    u.1.Begun (ws ++ [l]) := by
  unfold step at hu
  split at hu
  case h_1 g outer x | h_2 g outer n =>
    cases hu
    obtain ⟨lo, ld, lc, lp, ls, lt, rfl, ho, hk⟩ := h
    exact ⟨lo, ld, lc, lp, ls, lt, [_], rfl, ho, hk, by constructor⟩
  case h_3 g outer =>
    cases hu
    obtain ⟨lo, ld, lc, lp, ls, lt, rfl, ho, hk⟩ := h
    exact ⟨lo ++ (ld ++ lc ++ lp ++ ls ++ lt) ++ [.mark .openParen], [], [], [], [], [], by simp,
      ⟨lo, ld, lc, lp, ls, lt, rfl, ho, hk, rfl⟩, Group.begun_fresh _⟩
  case h_4 g outer =>
    split at hu
    · next hg =>
      cases hu
      simp only [Bool.and_eq_true, Option.isNone_iff_eq_none] at hg
      exact begun_negation h hg.1 hg.2
    · cases hu
  case h_5 g outer a o =>
    cases hu
    exact begun_afterOperator h o
  case h_6 g outer a r =>
    split at hu
    · next hg =>
      cases hu
      simp only [Bool.and_eq_true, Option.isNone_iff_eq_none] at hg
      exact begun_relation h r hg.1 hg.2
    · cases hu
  case h_7 g outer a => exact begun_afterConnective h rfl .and hu
  case h_8 g outer a => exact begun_afterConnective h rfl .or hu
  case h_9 g outer e => exact begun_afterConnective h rfl .and hu
  case h_10 g outer e => exact begun_afterConnective h rfl .or hu
  case h_11 => exact begun_closeGroup h hu
  case h_12 => cases hu

theorem Begun.finish (h : s.Begun ws) (hs : s.finish? = some e) : Spells (.disjunction e) ws := by
  have hcurrent : ∃ g c, s.current? = some (g, [], c) ∧ e = g.disjunction c := by
    unfold finish? at hs
    split at hs
    · cases hs
      exact ⟨_, _, rfl, rfl⟩
    · cases hs
      exact ⟨_, _, rfl, rfl⟩
    · cases hs
  obtain ⟨g, c, hc, rfl⟩ := hcurrent
  obtain ⟨lo, ld, lc, l, rfl, ⟨-, rfl⟩, hd, hconj, he, -⟩ := h.comparison hc
  exact Group.disjunction_read hd hconj he

end Operands
end TuneScript
