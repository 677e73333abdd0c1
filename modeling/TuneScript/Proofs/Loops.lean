import Mathlib.Data.Int.Range
import TuneScript.Proofs.Circles

/-!
Loops. A conditional loop makes rounds as long as its condition holds, a thousand at most, and asks
for the condition once more than it makes rounds. A counted loop is its body written out as often as
it says, since nothing in the body changes the number of rounds or the counter of the next one. All
that can come between is a number that is too long to be printed.
-/

namespace TuneScript

/-- An engine that has printed one more line. -/
def Engine.said (e : Engine) (line : String) : Engine :=
  { e with log := e.log.push (.text (line ++ "\n")) }

namespace Perform

variable {run : Value → Perform Unit} {node : Value}

/-- The engine after so many rounds. -/
def afterRounds (round : Nat → Perform Unit) (e : Engine) : Nat → Engine
  | 0 => e
  | i + 1 => ((round (i + 1)).runOn (afterRounds round e i)).2

/-- The rounds up to the `k`-th went well, and the condition held before each of them. -/
def Made (condition : Value) (round : Nat → Perform Unit) (e : Engine) (k : Nat) : Prop :=
  ∀ i < k, (afterRounds round e i).holds condition = .ok true ∧
    (round (i + 1)).runOn (afterRounds round e i) = (.ok (), afterRounds round e (i + 1))

/-- How a loop that may make `limit` rounds ends when `k` of them have been made. -/
inductive Ends (condition : Value) (round : Nat → Perform Unit) (e : Engine) (limit k : Nat) :
    Except Failure Nat × Engine → Prop where
  | stopped {b : Bool} (h : (afterRounds round e k).holds condition = .ok b)
      (hb : b = false ∨ k = limit) :
      Ends condition round e limit k (.ok k, afterRounds round e k)
  | unanswered {f : Failure} (h : (afterRounds round e k).holds condition = .error f) :
      Ends condition round e limit k (.error f, afterRounds round e k)
  | broken {f : Failure} (hk : k < limit) (h : (afterRounds round e k).holds condition = .ok true)
      (hround : (round (k + 1)).runOn (afterRounds round e k) =
        (.error f, afterRounds round e (k + 1))) :
      Ends condition round e limit k (.error f, afterRounds round e (k + 1))

theorem runOn_holds {α : Type} (condition : Value) (f : Bool → Perform α) (e : Engine) :
    (holds condition >>= f).runOn e = (lift (e.holds condition) >>= f).runOn e := by
  rw [runOn_bind, runOn_bind]
  rfl

/-- A loop in which some rounds have been made, and `n` more can be. -/
theorem ends_roundsWhile {condition : Value} {round : Nat → Perform Unit} {e : Engine}
    {done : Nat} (hdone : Made condition round e done) (n : Nat) :
    ∃ k ≤ done + n, Made condition round e k ∧ Ends condition round e (done + n) k
      ((roundsWhile condition round done n).runOn (afterRounds round e done)) := by
  induction n generalizing done with
  | zero =>
      refine ⟨done, Nat.le_refl _, hdone, ?_⟩
      rw [roundsWhile, runOn_holds]
      cases h : (afterRounds round e done).holds condition with
      | ok b => exact .stopped h (.inr rfl)
      | error f => exact .unanswered h
  | succ n ih =>
      have hle : done ≤ done + (n + 1) := Nat.le_add_right _ _
      rw [roundsWhile, runOn_holds]
      cases h : (afterRounds round e done).holds condition with
      | error f => exact ⟨done, hle, hdone, .unanswered h⟩
      | ok b =>
          cases b with
          | false => exact ⟨done, hle, hdone, .stopped h (.inl rfl)⟩
          | true =>
              change ∃ k ≤ _, _ ∧ Ends condition round e _ k ((round (done + 1) >>= fun _ =>
                roundsWhile condition round (done + 1) n).runOn (afterRounds round e done))
              cases hround : (round (done + 1)).runOn (afterRounds round e done) with
              | mk r d =>
                  have hd : d = afterRounds round e (done + 1) := by
                    rw [afterRounds, hround]
                  subst hd
                  cases r with
                  | error f =>
                      refine ⟨done, hle, hdone, ?_⟩
                      rw [runOn_bind, hround]
                      exact .broken (by omega) h hround
                  | ok u =>
                      have hnext : Made condition round e (done + 1) := by
                        intro i hi
                        rcases Nat.lt_succ_iff_lt_or_eq.1 hi with hi | rfl
                        · exact hdone i hi
                        · exact ⟨h, hround⟩
                      rw [runOn_next hround, Nat.add_comm n 1, ← Nat.add_assoc]
                      exact ih hnext

/-- A round of a conditional loop: its number is printed, then the statements are run. -/
def numberedRound (run : Value → Perform Unit) (statements : Value) (i : Nat) : Perform Unit := do
  say ("   第 " ++ toString i ++ " 次迴圈")
  body run statements

/-- The end of a conditional loop that has made so many rounds. -/
def closing (done : Nat) : Perform Unit := do
  if roundLimit ≤ done then say "⚠️  迴圈達到最大次數限制，自動終止"
  say "🔄 while 迴圈結束"

/-- An engine after what is printed at the end of a conditional loop. -/
def closed (done : Nat) (e : Engine) : Engine :=
  if done = roundLimit then (e.said "⚠️  迴圈達到最大次數限制，自動終止").said "🔄 while 迴圈結束"
  else e.said "🔄 while 迴圈結束"

theorem runOn_closing {done : Nat} (h : done ≤ roundLimit) (e : Engine) :
    (closing done).runOn e = (.ok (), closed done e) := by
  by_cases hlimit : done = roundLimit
  · rw [closing, if_pos (Nat.le_of_eq hlimit.symm), closed, if_pos hlimit]
    rfl
  · rw [closing, if_neg (by omega), closed, if_neg hlimit]
    rfl

theorem runOn_whileNode (run : Value → Perform Unit) (node : Value) (e : Engine) :
    (whileNode run node).runOn e =
      (roundsWhile (Node.child node "condition")
        (numberedRound run ((node.field? "body").getD (.list []))) 0 roundLimit >>=
          closing).runOn (e.said "🔄 while 迴圈開始") := by
  rw [whileNode, runOn_say]
  rfl

theorem perform_while (depth : Nat) (h : Node.typeName node = "while") :
    perform (depth + 1) node = whileNode (perform depth) node := by
  rw [perform, statement, h]
  rfl

/-- A conditional loop makes its rounds one after the other for as long as its condition holds, and
a thousand of them at most. It prints the warning when all thousand were made. A failure ends it
where it arises, and nothing more is printed. -/
theorem while_rounds (depth : Nat) (h : Node.typeName node = "while") (e : Engine) :
    let condition := Node.child node "condition"
    let round := numberedRound (perform depth) ((node.field? "body").getD (.list []))
    let state := afterRounds round (e.said "🔄 while 迴圈開始")
    let run := (perform (depth + 1) node).runOn e
    ∃ k ≤ 1000,
      (∀ i < k, (state i).holds condition = .ok true ∧
        (round (i + 1)).runOn (state i) = (.ok (), state (i + 1))) ∧
      ((∃ b, (state k).holds condition = .ok b ∧ (b = false ∨ k = 1000) ∧
          run = (.ok (), closed k (state k))) ∨
        (∃ f, (state k).holds condition = .error f ∧ run = (.error f, state k)) ∨
        ∃ f, k < 1000 ∧ (state k).holds condition = .ok true ∧
          (round (k + 1)).runOn (state k) = (.error f, state (k + 1)) ∧
          run = (.error f, state (k + 1))) := by
  intro condition round state run
  have hnone : Made condition round (e.said "🔄 while 迴圈開始") 0 := nofun
  obtain ⟨k, hk, hmade, hends⟩ := ends_roundsWhile hnone roundLimit
  rw [Nat.zero_add] at hk hends
  refine ⟨k, hk, hmade, ?_⟩
  obtain ⟨r, hr⟩ : ∃ r, (roundsWhile condition round 0 roundLimit).runOn (state 0) = r := ⟨_, rfl⟩
  have hrun : run = (next closing r.1).runOn r.2 := by
    rw [← hr, ← runOn_bind]
    exact (congrArg (runOn · e) (perform_while depth h)).trans (runOn_whileNode _ _ e)
  rw [hrun]
  rw [hr] at hends
  cases hends with
  | stopped hb hstop => exact .inl ⟨_, hb, hstop, runOn_closing hk _⟩
  | unanswered hf => exact .inr (.inl ⟨_, hf, rfl⟩)
  | broken hlt hb hf => exact .inr (.inr ⟨_, hlt, hb, hf, rfl⟩)

/-- A loop whose condition always holds makes all thousand rounds. -/
theorem while_one_rounds :
    let node := Node.whileLoop (Node.number (.int 1)) []
    let e := Engine.built .soft (.working none)
    Node.typeName node = "while" ∧ (perform 2 node).runOn e = (.ok (), closed 1000 (afterRounds
      (numberedRound (perform 1) (.list [])) (e.said "🔄 while 迴圈開始") 1000)) := by
  intro node e
  have hholds (d : Engine) : d.holds (Node.child node "condition") = .ok true := by
    rw [Engine.holds]
    rfl
  have hround (i : Nat) (d : Engine) :
      ((numberedRound (perform 1) (.list []) i).runOn d).1 = .ok () := rfl
  have htype : Node.typeName node = "while" := rfl
  refine ⟨htype, ?_⟩
  obtain ⟨k, hk, hmade, ⟨b, hb, hstop, hrun⟩ | ⟨f, hf, -⟩ | ⟨f, -, -, hf, -⟩⟩ :=
    while_rounds 1 htype e
  · cases Except.ok.inj (hb.symm.trans (hholds _))
    cases hstop.resolve_left Bool.noConfusion
    exact hrun
  · cases hf.symm.trans (hholds _)
  · cases (congrArg Prod.fst hf).symm.trans (hround _ _)

end Perform

/-- The number of rounds that a counted loop asks for. -/
def Engine.countOf (e : Engine) (node : Value) : Result Int := do
  (← e.valueOf (Node.child node "count") (.int 1)).toInt

/-- A bound of a loop with a counter, by the name that it has in the range. -/
def Engine.boundOf (e : Engine) (node : Value) (key : String) : Result Int := do
  (← e.valueOf (← (Node.child node "range").get key (.record [])) (.int 0)).toInt

namespace Value

theorem display_int {n : Int} (h : n.natAbs < 10 ^ digitLimit) :
    (int n).display = .ok (toString n) := by
  have hwidth : Decimal.width n.natAbs ≤ digitLimit :=
    (Nat.length_toDigits_le_iff (by decide) (by decide)).2 h
  exact if_neg (Nat.not_lt.2 hwidth)

theorem display_int_long {n : Int} (h : ¬ n.natAbs < 10 ^ digitLimit) :
    (int n).display = .error .integerTextTooLong := by
  have hwidth : ¬ Decimal.width n.natAbs ≤ digitLimit := fun hle =>
    h ((Nat.length_toDigits_le_iff (by decide) (by decide)).1 hle)
  exact if_pos (Nat.not_le.1 hwidth)

mutual

/-- Only a whole number can be too long to be written. -/
theorem literal_error {v : Value} {f : Failure} (h : v.literal = .error f) :
    f = .integerTextTooLong := by
  cases v with
  | int n =>
      by_cases hn : n.natAbs < 10 ^ digitLimit
      · cases h.symm.trans (display_int hn)
      · exact Except.error.inj (h.symm.trans (display_int_long hn))
  | list items =>
      rcases Result.bind_eq_error h with h | ⟨_, _, h⟩
      · exact literalItems_error h
      · cases h
  | record fields =>
      rcases Result.bind_eq_error h with h | ⟨_, _, h⟩
      · exact literalFields_error h
      · cases h
  | _ => cases h

theorem literalItems_error {items : List Value} {f : Failure}
    (h : literalItems items = .error f) : f = .integerTextTooLong := by
  cases items with
  | nil => cases h
  | cons v rest =>
      rcases Result.bind_eq_error h with h | ⟨_, _, h⟩
      · exact literal_error h
      rcases Result.bind_eq_error h with h | ⟨_, _, h⟩
      · exact literalItems_error h
      · cases h

theorem literalFields_error {fields : List (String × Value)} {f : Failure}
    (h : literalFields fields = .error f) : f = .integerTextTooLong := by
  cases fields with
  | nil => cases h
  | cons field rest =>
      obtain ⟨key, v⟩ := field
      rcases Result.bind_eq_error h with h | ⟨_, _, h⟩
      · exact literal_error h
      rcases Result.bind_eq_error h with h | ⟨_, _, h⟩
      · exact literalFields_error h
      · cases h

end

theorem display_error {v : Value} {f : Failure} (h : v.display = .error f) :
    f = .integerTextTooLong := by
  cases v with
  | text s => cases h
  | _ => exact literal_error h

end Value

namespace Perform

variable {run : Value → Perform Unit} {node : Value}

theorem runOn_shown {α : Type} {v : Value} {t : String} (h : v.display = .ok t)
    (f : String → Perform α) (e : Engine) : (shown v >>= f).runOn e = (f t).runOn e := by
  rw [shown, h]
  rfl

theorem runOn_shown_error {α : Type} {v : Value} (h : ¬ ∃ t, v.display = .ok t)
    (f : String → Perform α) (e : Engine) :
    (shown v >>= f).runOn e = (.error .integerTextTooLong, e) := by
  cases hv : v.display with
  | ok t => exact (h ⟨t, hv⟩).elim
  | error failure =>
      rw [shown, hv, Value.display_error hv]
      rfl

/-- A line that is printed at the end makes no difference either. -/
theorem alike_bind_say (x : Perform Unit) (s : String) (e : Engine) :
    Alike ((x >>= fun _ => say s).runOn e) (x.runOn e) := by
  rw [runOn_bind]
  cases x.runOn e with
  | mk r d =>
      cases r with
      | ok u => exact ⟨rfl, silent_say s d⟩
      | error f => exact .refl _

/-- Rounds that are alike one by one are alike in a row. -/
theorem alike_rounds {round x : Nat → Perform Unit} (hx : ∀ k, (x k).Acts) {i n : Nat}
    (h : ∀ k < i + n, ∀ e, Alike ((round k).runOn e) ((x k).runOn e)) (e : Engine) :
    Alike ((rounds round i n).runOn e) (((List.range' i n).forM x).runOn e) := by
  induction n generalizing i e with
  | zero => exact .refl _
  | succ n ih =>
      have hrest (d : Engine) : Alike ((rounds round (i + 1) n).runOn d)
          (((List.range' (i + 1) n).forM x).runOn d) := ih (fun k hk => h k (by omega)) d
      have hfirst : Alike ((round i).runOn e) ((x i).runOn e) := h i (by omega) e
      exact (alike_bind_right fun _ d _ => hrest d).trans
        (alike_bind_left hfirst fun _ => .forM hx _)

theorem runOn_lift_ok {α β : Type} {r : Result α} {a : α} (h : r = .ok a) (f : α → Perform β)
    (e : Engine) : (lift r >>= f).runOn e = (f a).runOn e := by
  rw [h]
  rfl

theorem runOn_toInt {α : Type} {e : Engine} {expression default : Value} {n : Int}
    (h : (do (← e.valueOf expression default).toInt) = Except.ok n) (f : Int → Perform α) :
    (valueOf expression default >>= fun v => lift v.toInt >>= f).runOn e = (f n).runOn e := by
  obtain ⟨v, hv, hn⟩ := Result.bind_eq_ok.1 h
  have hrun : (valueOf expression default).runOn e = (.ok v, e) := by
    rw [valueOf, runOn_get, runOn_lift, hv]
  rw [runOn_next hrun, hn]
  rfl

/-- A body so many times in a row. -/
def repeated (run : Value → Perform Unit) (statements : Value) (n : Nat) : Perform Unit :=
  (List.replicate n statements).forM (body run)

/-- A body once for each whole number from `first` to before `last`, which is what the counter holds
at its start. -/
def counted (run : Value → Perform Unit) (statements counter : Value) (first last : Int) :
    Perform Unit :=
  (Int.range first last).forM fun i => do
    setVariable counter (.int i)
    body run statements

theorem repeated_eq (statements : Value) (n : Nat) :
    repeated run statements n = (List.range' 0 n).forM fun _ => body run statements := by
  have hmap : List.replicate n statements = (List.range' 0 n).map fun _ => statements := by
    rw [List.map_const', List.length_range']
  rw [repeated, hmap]
  exact List.forM_map

theorem counted_eq (statements counter : Value) (first last : Int) :
    counted run statements counter first last =
      (List.range' 0 (last - first).toNat).forM fun k =>
        setVariable counter (.int (first + k)) >>= fun _ => body run statements := by
  rw [counted, Int.range, List.range_eq_range']
  exact List.forM_map

theorem alike_loopNode (hrun : ∀ v, Deeds (run v)) {e : Engine} {c : Int}
    (hc : e.countOf node = .ok c) (hwritten : c.natAbs < 10 ^ digitLimit) :
    Alike ((loopNode run node).runOn e)
      ((repeated run ((node.field? "body").getD (.list [])) c.toNat).runOn e) := by
  have hbody (statements : Value) : (body run statements).Acts := (Deeds.body hrun _).acts
  rw [loopNode, runOn_toInt hc, runOn_shown (Value.display_int hwritten), repeated_eq]
  refine (alike_say ?_ _ e).trans (alike_rounds (fun _ => hbody _) (fun k _ d => ?_) e)
  · exact Deeds.acts (.rounds (fun _ => .bind (Deeds.say _) fun _ => Deeds.body hrun _) 0 _)
  · exact alike_say (hbody _) _ d

theorem runOn_loopNode_long {e : Engine} {c : Int} (hc : e.countOf node = .ok c)
    (hlong : ¬ c.natAbs < 10 ^ digitLimit) :
    (loopNode run node).runOn e = (.error .integerTextTooLong, e) := by
  rw [loopNode, runOn_toInt hc, shown, Value.display_int_long hlong]
  rfl

/-- A round of a loop with a counter. -/
def counterRound (run : Value → Perform Unit) (statements counter : Value) (first last : Int)
    (k : Nat) : Perform Unit := do
  let i := first + k
  setVariable counter (.int i)
  say ("   第 " ++ (← shown (.int (i + 1))) ++ "/" ++ (← shown (.int (last - first))) ++ " 次，" ++
    (← shown counter) ++ " = " ++ (← shown (.int i)))
  body run statements

/-- The rounds of a loop with a counter, and the line at its end. -/
def counterRounds (run : Value → Perform Unit) (statements counter : Value) (first last : Int) :
    Perform Unit := do
  rounds (counterRound run statements counter first last) 0 (last - first).toNat
  say "🔄 for 迴圈結束"

theorem runOn_forNode {e : Engine} {counter : Value} {first last : Int}
    (hcounter : Node.nameOf (Node.child node "variable") = .ok counter)
    (hfirst : e.boundOf node "start" = .ok first) (hlast : e.boundOf node "end" = .ok last) :
    (forNode run node).runOn e = (shown counter >>= fun c => shown (.int first) >>= fun a =>
      shown (.int last) >>= fun b => say ("🔄 for 迴圈開始 (" ++ c ++ ": " ++ a ++ " 到 " ++ b ++ ")")
        >>= fun _ => counterRounds run ((node.field? "body").getD (.list [])) counter first
          last).runOn e := by
  obtain ⟨start, hstart, hfirst⟩ := Result.bind_eq_ok.1 hfirst
  obtain ⟨stop, hstop, hlast⟩ := Result.bind_eq_ok.1 hlast
  unfold forNode
  dsimp only
  rw [runOn_lift_ok hcounter, runOn_lift_ok hstart, runOn_toInt hfirst, runOn_lift_ok hstop,
    runOn_toInt hlast]
  rfl

/-- What the line at the start of a loop with a counter shows can be written. -/
def Opens (counter : Value) (first last : Int) : Prop :=
  (∃ t, counter.display = .ok t) ∧ first.natAbs < 10 ^ digitLimit ∧ last.natAbs < 10 ^ digitLimit

theorem deeds_counterRound (hrun : ∀ v, Deeds (run v)) (statements counter : Value)
    (first last : Int) (k : Nat) : Deeds (counterRound run statements counter first last k) :=
  .bind (Deeds.setVariable _ _) fun _ => .bind (.shown _) fun _ => .bind (.shown _) fun _ =>
    .bind (.shown _) fun _ => .bind (.shown _) fun _ => .bind (Deeds.say _) fun _ =>
    Deeds.body hrun _

theorem alike_forNode (hrun : ∀ v, Deeds (run v)) {e : Engine} {counter : Value} {first last : Int}
    (hcounter : Node.nameOf (Node.child node "variable") = .ok counter)
    (hfirst : e.boundOf node "start" = .ok first) (hlast : e.boundOf node "end" = .ok last)
    (hopens : Opens counter first last) :
    Alike ((forNode run node).runOn e) ((counterRounds run ((node.field? "body").getD (.list []))
      counter first last).runOn e) := by
  obtain ⟨⟨name, hname⟩, ha, hb⟩ := hopens
  rw [runOn_forNode hcounter hfirst hlast, runOn_shown hname, runOn_shown (Value.display_int ha),
    runOn_shown (Value.display_int hb)]
  refine alike_say (Deeds.acts ?_) _ e
  exact .bind (.rounds (deeds_counterRound hrun _ counter first last) 0 _) fun _ => Deeds.say _

theorem alike_counterRounds (hrun : ∀ v, Deeds (run v)) (statements : Value) {counter : Value}
    {first last : Int} (hopens : Opens counter first last)
    (hlength : first < last → (last - first).natAbs < 10 ^ digitLimit) (e : Engine) :
    Alike ((counterRounds run statements counter first last).runOn e)
      ((counted run statements counter first last).runOn e) := by
  have hbody : (body run statements).Acts := (Deeds.body hrun _).acts
  obtain ⟨⟨name, hname⟩, ha, hb⟩ := hopens
  rw [counted_eq]
  refine (alike_bind_say _ _ e).trans (alike_rounds (fun k => ?_) (fun k hk d => ?_) e)
  · exact .bind (.setVariable _ _) fun _ => hbody
  · have hi : (first + k).natAbs < 10 ^ digitLimit := by omega
    have hnext : (first + k + 1).natAbs < 10 ^ digitLimit := by omega
    refine alike_bind_right fun _ c _ => ?_
    rw [runOn_shown (Value.display_int hnext), runOn_shown (Value.display_int (hlength (by omega))),
      runOn_shown hname, runOn_shown (Value.display_int hi)]
    exact alike_say hbody _ c

/-- The number of all rounds may be too long although both bounds can be written. -/
theorem runOn_counterRounds_long (statements : Value) {counter : Value} {first last : Int}
    (hopens : Opens counter first last) (hlt : first < last)
    (hlong : ¬ (last - first).natAbs < 10 ^ digitLimit) (e : Engine) :
    (counterRounds run statements counter first last).runOn e =
      (setVariable counter (.int first) >>= fun _ => throw .integerTextTooLong).runOn e := by
  obtain ⟨n, hn⟩ : ∃ n, (last - first).toNat = n + 1 := ⟨(last - first).toNat - 1, by omega⟩
  have hnext : (first + 1).natAbs < 10 ^ digitLimit := by
    obtain ⟨_, ha, hb⟩ := hopens
    omega
  have hwritten : shown (.int (first + 1)) = pure (toString (first + 1)) := by
    rw [shown, Value.display_int hnext]
    rfl
  have htotal : shown (.int (last - first)) = throw .integerTextTooLong := by
    rw [shown, Value.display_int_long hlong]
    rfl
  have hzero : first + ((0 : Nat) : Int) = first := Int.add_zero first
  rw [counterRounds, hn, rounds, counterRound, bind_assoc, bind_assoc, hzero, hwritten, pure_bind,
    htotal]
  rfl

theorem runOn_forNode_long {e : Engine} {counter : Value} {first last : Int}
    (hcounter : Node.nameOf (Node.child node "variable") = .ok counter)
    (hfirst : e.boundOf node "start" = .ok first) (hlast : e.boundOf node "end" = .ok last)
    (hlong : ¬ Opens counter first last) :
    (forNode run node).runOn e = (.error .integerTextTooLong, e) := by
  rw [runOn_forNode hcounter hfirst hlast]
  by_cases hname : ∃ t, counter.display = .ok t
  · obtain ⟨t, ht⟩ := hname
    rw [runOn_shown ht]
    by_cases ha : first.natAbs < 10 ^ digitLimit
    · have hb : ¬ last.natAbs < 10 ^ digitLimit := fun hb => hlong ⟨⟨t, ht⟩, ha, hb⟩
      rw [runOn_shown (Value.display_int ha), shown, Value.display_int_long hb]
      rfl
    · rw [shown, Value.display_int_long ha]
      rfl
  · exact runOn_shown_error hname _ e

theorem perform_loop (depth : Nat) (h : Node.typeName node = "loop") :
    perform (depth + 1) node = loopNode (perform depth) node := by
  rw [perform, statement, h]
  rfl

theorem perform_for (depth : Nat) (h : Node.typeName node = "for") :
    perform (depth + 1) node = forNode (perform depth) node := by
  rw [perform, statement, h]
  rfl

/-- Counted loops are their bodies written out. What is printed can stop them: a number of rounds
or a bound of more than `digitLimit` digits cannot be written. -/
theorem counted_loops (depth : Nat) (node : Value) (e : Engine) :
    let statements := (node.field? "body").getD (.list [])
    let run := (perform (depth + 1) node).runOn e
    (Node.typeName node = "loop" → ∀ c, e.countOf node = .ok c →
      (c.natAbs < 10 ^ digitLimit →
        Alike run ((repeated (perform depth) statements c.toNat).runOn e)) ∧
      (¬ c.natAbs < 10 ^ digitLimit → run = (.error .integerTextTooLong, e))) ∧
    (Node.typeName node = "for" → ∀ counter first last,
      Node.nameOf (Node.child node "variable") = .ok counter →
      e.boundOf node "start" = .ok first → e.boundOf node "end" = .ok last →
      (Opens counter first last → (first < last → (last - first).natAbs < 10 ^ digitLimit) →
        Alike run ((counted (perform depth) statements counter first last).runOn e)) ∧
      (Opens counter first last → first < last → ¬ (last - first).natAbs < 10 ^ digitLimit →
        Alike run ((setVariable counter (.int first) >>= fun _ =>
          throw .integerTextTooLong).runOn e)) ∧
      (¬ Opens counter first last → run = (.error .integerTextTooLong, e))) := by
  intro statements run
  have hrun : ∀ v, Deeds (perform depth v) := Deeds.perform depth
  constructor
  · intro htype c hc
    have hloop : run = (loopNode (perform depth) node).runOn e :=
      congrArg (runOn · e) (perform_loop depth htype)
    rw [hloop]
    exact ⟨alike_loopNode hrun hc, runOn_loopNode_long hc⟩
  · intro htype counter first last hcounter hfirst hlast
    have hfor : run = (forNode (perform depth) node).runOn e :=
      congrArg (runOn · e) (perform_for depth htype)
    rw [hfor]
    refine ⟨fun hopens hlength => ?_, fun hopens hlt hlong => ?_,
      runOn_forNode_long hcounter hfirst hlast⟩
    · exact (alike_forNode hrun hcounter hfirst hlast hopens).trans
        (alike_counterRounds hrun _ hopens hlength e)
    · rw [← runOn_counterRounds_long statements hopens hlt hlong e]
      exact alike_forNode hrun hcounter hfirst hlast hopens

/-- The body of both loops overwrites the counter of the second. -/
theorem counted_loops_overwritten :
    let statements := [Node.assign (Node.identifier "i") (Node.number (.int 7))]
    let e := Engine.built .soft (.working none)
    Alike ((perform 2 (Node.loop (Node.number (.int 3)) statements)).runOn e)
        ((repeated (perform 1) (.list statements) 3).runOn e) ∧
      Alike ((perform 2 (Node.forLoop (Node.identifier "i")
          (Node.range (Node.number (.int (-2))) (Node.number (.int 4))) statements)).runOn e)
        ((counted (perform 1) (.list statements) (.text "i") (-2) 4).runOn e) := by
  intro statements e
  have hsmall {n : Nat} (h : n < 10) : n < 10 ^ digitLimit :=
    Nat.lt_of_lt_of_le h (Nat.le_self_pow (by decide) 10)
  have hvalue (n : Int) (default : Value) :
      (do (← e.valueOf (Node.number (.int n)) default).toInt) = Except.ok n := by
    rw [Engine.valueOf_number]
    rfl
  constructor
  · exact ((counted_loops 1 (Node.loop _ _) e).1 rfl 3 (hvalue 3 _)).1 (hsmall (by decide))
  · let node := Node.forLoop (Node.identifier "i")
      (Node.range (Node.number (.int (-2))) (Node.number (.int 4))) statements
    have hfirst : e.boundOf node "start" = .ok (-2) := hvalue (-2) (.int 0)
    have hlast : e.boundOf node "end" = .ok 4 := hvalue 4 (.int 0)
    refine ((counted_loops 1 node e).2 rfl (.text "i") (-2) 4 rfl hfirst hlast).1
      ⟨⟨"i", rfl⟩, hsmall (by decide), hsmall (by decide)⟩ fun _ => hsmall (by decide)

/-- A loop that makes no round fails for a number of rounds that cannot be written. -/
theorem not_counted_loop_long :
    let node := Node.loop (Node.infixed "binop" "*" (Node.number (.int (10 ^ 2150)))
      (Node.number (.int (-10 ^ 2150)))) []
    let e := Engine.built .soft (.working none)
    e.countOf node = .ok (-10 ^ digitLimit) ∧
      (perform 2 node).runOn e = (.error .integerTextTooLong, e) ∧
      ¬ Alike ((perform 2 node).runOn e) ((repeated (perform 1) (.list []) 0).runOn e) := by
  intro node e
  have hproduct (x y : Int) : e.countOf (Node.loop (Node.infixed "binop" "*" (Node.number (.int x))
      (Node.number (.int y))) []) = .ok (x * y) := by
    let count := Node.infixed "binop" "*" (Node.number (.int x)) (Node.number (.int y))
    have hleft : e.operand count "left" = .ok (.int x) := Engine.valueOf_number e _ _
    have hright : e.operand count "right" = .ok (.int y) := Engine.valueOf_number e _ _
    change (do (← e.valueOf count _).toInt) = _
    rw [Engine.valueOf_binop e rfl, hleft, hright]
    rfl
  have hcount : e.countOf node = .ok (-10 ^ digitLimit) := by
    have hdigits : 2150 + 2150 = digitLimit := rfl
    rw [hproduct, Int.mul_neg, ← pow_add, hdigits]
  have hself (d : Nat) : (-10 ^ d : Int).natAbs = 10 ^ d := by
    rw [Int.natAbs_neg, Int.natAbs_pow]
    rfl
  have hlong : ¬ (-10 ^ digitLimit : Int).natAbs < 10 ^ digitLimit := by
    rw [hself]
    exact Nat.lt_irrefl _
  have hrun : (perform 2 node).runOn e = (.error .integerTextTooLong, e) :=
    runOn_loopNode_long hcount hlong
  refine ⟨hcount, hrun, fun h => ?_⟩
  rw [hrun] at h
  cases h.1

end Perform
end TuneScript
