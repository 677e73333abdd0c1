import TuneScript.Proofs.Agreement
import TuneScript.Proofs.Depths

/-!
Programs without recursive calls. Names have ranks that fall from every function to what it calls.
A variable then never holds a function of a higher rank than its own, as long as functions are
copied upwards only, and the depth of a run is bounded by the sizes and the ranks of what is run.
There are two ways to copy a function: a name alone, and a quotient whose divisor equals zero.
-/

namespace TuneScript

namespace Stmt

mutual

/-- The functions that a statement calls, without those called in the definitions in it. -/
def calls : Stmt → List String
  | call name _ => [name]
  | loop _ body | whileLoop _ body | forLoop _ _ _ body => callsOf body
  | branch _ body alternatives otherwise =>
    callsOf body ++ alternativeCalls alternatives ++ otherwiseCalls otherwise
  | _ => []

def callsOf : List Stmt → List String
  | [] => []
  | s :: more => s.calls ++ callsOf more

def alternativeCalls : List (Logic × List Stmt) → List String
  | [] => []
  | (_, body) :: more => callsOf body ++ alternativeCalls more

def otherwiseCalls : Option (List Stmt) → List String
  | none => []
  | some body => callsOf body

end

theorem mem_callsOf {s : Stmt} {body : List Stmt} {name : String} (hs : s ∈ body)
    (h : name ∈ s.calls) : name ∈ callsOf body := by
  induction body with
  | nil => cases hs
  | cons t body ih =>
      rw [callsOf]
      rcases List.mem_cons.1 hs with rfl | hs
      · exact List.mem_append_left _ h
      · exact List.mem_append_right _ (ih hs)

theorem mem_alternativeCalls {alternatives : List (Logic × List Stmt)} {body : List Stmt}
    {name : String} (hbody : body ∈ alternatives.map Prod.snd) (h : name ∈ callsOf body) :
    name ∈ alternativeCalls alternatives := by
  induction alternatives with
  | nil => cases hbody
  | cons alternative alternatives ih =>
      rw [alternativeCalls]
      rcases List.mem_cons.1 hbody with rfl | hbody
      · exact List.mem_append_left _ h
      · exact List.mem_append_right _ (ih hbody)

theorem mem_bodies_of_runBodies {s : Stmt} {body : List Stmt} (h : body ∈ s.runBodies) :
    body ∈ s.bodies := by
  cases s with
  | branch _ _ _ _ => exact List.mem_cons_of_mem _ h
  | define _ _ _ => cases h
  | _ => exact h

/-- A statement calls what the statements call that are run with it. -/
theorem mem_calls_of_runBodies {s u : Stmt} {body : List Stmt} (hbody : body ∈ s.runBodies)
    (hu : u ∈ body) {name : String} (h : name ∈ u.calls) : name ∈ s.calls := by
  have hname : name ∈ callsOf body := mem_callsOf hu h
  cases s with
  | loop _ _ | whileLoop _ _ | forLoop _ _ _ _ =>
      cases List.mem_singleton.1 hbody
      rw [calls]
      exact hname
  | branch condition first alternatives otherwise =>
      rw [calls]
      rcases List.mem_append.1 hbody with hbody | hbody
      · exact List.mem_append_left _
          (List.mem_append_right _ (mem_alternativeCalls hbody hname))
      · cases Option.mem_toList.1 hbody
        exact List.mem_append_right _ hname
  | _ => cases hbody

theorem Within.sizeOf_lt {s : Stmt} {body : List Stmt} (h : s.Within body) :
    sizeOf s < sizeOf body := by
  induction h with
  | here hmem => exact List.sizeOf_lt_of_mem hmem
  | inside ht hinner _ ih =>
      have hbody := sizeOf_lt_of_bodies hinner
      have hstatement := List.sizeOf_lt_of_mem ht
      omega

end Stmt

/-- The variable whose value an expression may come to, whatever that value is. -/
def Arith.source? : Arith → Option String
  | name x => some x
  | binary .div dividend _ => dividend.source?
  | _ => none

def Expr.source? : Expr → Option String
  | logic (.arith a) => a.source?
  | _ => none

section

variable (rank : String → Nat) (size : Nat)

/-- A rank of names falls from a definition to what is called in its body, and a name that is
given the value of another one has no smaller rank. -/
def Stmt.Ranked : Stmt → Prop
  | define name _ body => ∀ callee ∈ callsOf body, rank callee < rank name
  | assign x (.logic (.arith (.name y))) => rank y ≤ rank x
  | _ => True

/-- Ranked statements of a bounded size, whatever way they give the value of a name to another. -/
def Stmt.Orderly : Stmt → Prop
  | define name _ body => (∀ callee ∈ callsOf body, rank callee < rank name) ∧ sizeOf body ≤ size
  | assign x value => ∀ y ∈ value.source?, rank y ≤ rank x
  | _ => True

/-- The body of a function that a variable can hold: it calls only what has a smaller rank. -/
structure Stmt.Fits (x : String) (body : List Stmt) : Prop where
  falls : ∀ callee ∈ callsOf body, rank callee < rank x
  size_le : sizeOf body ≤ size
  orderly : Throughout (Orderly rank size) body

/-- What a variable can hold in the run of a ranked program: a number or a function. -/
inductive Filed (x : String) : Value → Prop where
  | number (n : Number) : Filed x n.toValue
  | function (parameters : Value) {body : List Stmt} (h : Stmt.Fits rank size x body) :
      Filed x (Perform.functionValue parameters (.list (Stmt.toNodes body)))

/-- An engine whose variables hold nothing but what they can hold. -/
def Engine.Ordered (e : Engine) : Prop :=
  ∀ table, e.store = some table →
    ∀ x v, table.find? (.text x) = some v → Filed rank size x v

end

theorem exists_rank_le (rank : String → Nat) (source : Option String) :
    ∃ x, ∀ y ∈ source, rank y ≤ rank x := by
  cases source with
  | none => exact ⟨"", nofun⟩
  | some y =>
      refine ⟨y, fun z hz => ?_⟩
      cases hz
      exact Nat.le_refl _

theorem exists_rank_lt (rank : String → Nat) (names : List String) :
    ∃ n, ∀ x ∈ names, rank x < n := by
  induction names with
  | nil => exact ⟨0, nofun⟩
  | cons name names ih =>
      obtain ⟨n, hn⟩ := ih
      refine ⟨max n (rank name + 1), List.forall_mem_cons.2 ⟨by omega, fun x hx => ?_⟩⟩
      have hlt := hn x hx
      omega

variable {rank : String → Nat} {size : Nat}

namespace Filed

variable {x y : String} {v : Value}

theorem mono (h : Filed rank size y v) (hrank : rank y ≤ rank x) : Filed rank size x v := by
  cases h with
  | number n => exact .number n
  | function parameters h =>
      exact .function parameters
        { h with falls := fun callee hcallee => Nat.lt_of_lt_of_le (h.falls callee hcallee) hrank }

theorem stored (h : Filed rank size x v) : Stored (fun _ => True) v := by
  cases h with
  | number n => exact .ofNumber n
  | function parameters _ => exact .function parameters fun _ _ => trivial

end Filed

namespace Engine

variable {e d : Engine}

theorem Ordered.of_store (h : d.store = e.store) (he : e.Ordered rank size) :
    d.Ordered rank size := by
  intro table htable
  rw [h] at htable
  exact he table htable

theorem Ordered.of_silent (h : d.silent = e.silent) (he : e.Ordered rank size) :
    d.Ordered rank size :=
  he.of_store (read_of_silent store (fun _ => rfl) h)

theorem Ordered.lookup (he : e.Ordered rank size) {x : String} {default v : Value}
    (hdefault : Filed rank size x default) (h : e.lookup (.text x) default = .ok v) :
    Filed rank size x v := by
  rw [Engine.lookup] at h
  cases hstore : e.store with
  | none =>
      rw [hstore] at h
      cases h
  | some table =>
      rw [hstore] at h
      change Except.ok ((table.find? (.text x)).getD default) = _ at h
      cases hfind : table.find? (.text x) with
      | none =>
          rw [hfind] at h
          cases h
          exact hdefault
      | some w =>
          rw [hfind] at h
          cases h
          exact he table hstore x w hfind

/-- Arithmetic gives numbers, and else what its source holds. -/
theorem Ordered.arith (he : e.Ordered rank size) {a : Arith} {x : String}
    (hsource : ∀ y ∈ a.source?, rank y ≤ rank x) {n : Int} {v : Value}
    (h : e.valueOf a.toNode (.int n) = .ok v) : Filed rank size x v := by
  induction a generalizing x n v with
  | number m =>
      rw [Arith.toNode, Numeral.toNode, valueOf_number] at h
      cases h
      unfold Numeral.value
      split
      · exact .number (.int _)
      · exact .number (.float _)
  | name y =>
      rw [Arith.toNode, valueOf_identifier] at h
      exact (he.lookup (.number (.int n)) h).mono (hsource y rfl)
  | binary o l r ihl ihr =>
      rw [valueOf_binary] at h
      obtain ⟨left, hleft, h⟩ := Result.bind_eq_ok.1 h
      obtain ⟨right, hright, h⟩ := Result.bind_eq_ok.1 h
      obtain ⟨y, hy⟩ := exists_rank_le rank l.source?
      obtain ⟨z, hz⟩ := exists_rank_le rank r.source?
      rcases Stored.operate_ok (ihl hy hleft).stored (ihr hz hright).stored h with
        ⟨n, rfl⟩ | ⟨rfl, rfl⟩
      · exact .number n
      · exact ihl hsource hleft

theorem Ordered.valueOf (he : e.Ordered rank size) {value : Expr} {x : String}
    (hsource : ∀ y ∈ value.source?, rank y ≤ rank x) {v : Value}
    (h : e.valueOf value.toNode (.int 0) = .ok v) : Filed rank size x v := by
  cases value with
  | chord notes =>
      rw [Expr.toNode, Engine.valueOf] at h
      cases h
      exact .number (.int 0)
  | logic l =>
      cases l with
      | arith a => exact he.arith hsource h
      | compare _ _ _ | negation _ | connect _ _ _ =>
          rw [Expr.toNode, Logic.toNode, Engine.valueOf] at h
          cases h
          exact .number (.int 0)

theorem Ordered.setVariable (he : e.Ordered rank size) {name value : Value}
    (hvalue : ∀ x, name = .text x → Filed rank size x value) :
    ((Perform.setVariable name value).runOn e).2.Ordered rank size := by
  cases hstore : e.store with
  | none =>
      have hsame : ((Perform.setVariable name value).runOn e).2 = e := by
        rw [Perform.setVariable, Perform.runOn_bind, Perform.store, Perform.runOn_part, hstore]
        rfl
      rw [hsame]
      exact he
  | some table =>
      rw [Perform.runOn_setVariable hstore]
      cases name.requireKey with
      | error f => exact he
      | ok u =>
          intro table' htable' x v hfind
          cases htable'
          rcases Table.find?_insert hfind with hold | ⟨hname, rfl⟩
          · exact he table hstore x v hold
          · exact hvalue x hname

/-- A new engine has no variables. -/
theorem ordered_built (device : Device) : (built .soft device).Ordered rank size := by
  intro table htable x v hfind
  cases device with
  | working format =>
      have hstore : (built .soft (.working format)).store = some [] :=
        read_of_silent store (fun _ => rfl) (silent_built_working .soft format)
      rw [hstore] at htable
      cases htable
      cases hfind
  | broken reason =>
      have hstore : (built .soft (.broken reason)).store = none :=
        read_of_silent store (fun _ => rfl) (silent_built_broken reason)
      rw [hstore] at htable
      cases htable

end Engine

namespace Perform

variable {α : Type}

namespace InStep

variable {F : Failure → Prop} {run run' : Value → Perform Unit}

/-- Actions that leave the variables as they are. -/
theorem steady {x : Perform α} (hx : Leaves Engine.store x) :
    InStep (Engine.Ordered rank size) F x x fun _ => True :=
  same fun e he => he.of_store (hx.read_eq e)

theorem body_toNodes {I : Engine → Prop} {statements : List Stmt}
    (h : ∀ u ∈ statements, InStep I F (run u.toNode) (run' u.toNode) fun _ => True) :
    BodyInStep I F run run' (.list (Stmt.toNodes statements)) := by
  intro items hitems v hv
  cases hitems
  rw [Stmt.toNodes_eq_map] at hv
  obtain ⟨u, hu, rfl⟩ := List.mem_map.1 hv
  exact h u hu

/-- A variable that is set anew and reported. -/
theorem assigned {x : String} {value : Value} (hvalue : Filed rank size x value)
    {report : Perform Unit} (hreport : Prints report) :
    InStep (Engine.Ordered rank size) F (setVariable (.text x) value >>= fun _ => report)
      (setVariable (.text x) value >>= fun _ => report) fun _ => True := by
  refine bind (same fun e he => he.setVariable fun y hy => ?_) fun _ _ =>
    prints .of_silent hreport
  cases hy
  exact hvalue

theorem assignNode {x : String} {value : Expr} (h : ∀ y ∈ value.source?, rank y ≤ rank x) :
    InStep (Engine.Ordered rank size) F (Perform.assignNode (Stmt.assign x value).toNode)
      (Perform.assignNode (Stmt.assign x value).toNode) fun _ => True := by
  have hvalue : InStep (Engine.Ordered rank size) F (valueOf value.toNode (.int 0))
      (valueOf value.toNode (.int 0)) (Filed rank size x) := by
    intro e he
    rw [valueOf, runOn_get, runOn_lift]
    exact .inr ⟨rfl, he, fun v hv => he.valueOf h hv⟩
  refine bind (lift _) fun name hname => ?_
  cases hname
  refine bind hvalue fun v hv => assigned hv ?_
  exact .bind (.shown _) fun _ => .bind (.shown v) fun _ => Prints.say _

theorem defineNode {name : String} (parameters : List String) {statements : List Stmt}
    (h : Stmt.Fits rank size name statements) :
    InStep (Engine.Ordered rank size) F
      (Perform.defineNode (Stmt.define name parameters statements).toNode)
      (Perform.defineNode (Stmt.define name parameters statements).toNode) fun _ => True :=
  assigned (.function _ h) (.bind (.shown _) fun _ => Prints.say _)

/-- Statements of a ranked program are in step if those are that are run with them: the ones in
their braces, and for a call those of any function that its name can stand for. -/
theorem ranked {s : Stmt} (hs : s.Wholly (Stmt.Orderly rank size))
    (hinside : ∀ body ∈ s.runBodies, ∀ u ∈ body,
      InStep (Engine.Ordered rank size) F (run u.toNode) (run' u.toNode) fun _ => True)
    (hcalled : ∀ name ∈ s.calls, ∀ body, Stmt.Fits rank size name body → ∀ u ∈ body,
      InStep (Engine.Ordered rank size) F (run u.toNode) (run' u.toNode) fun _ => True) :
    InStep (Engine.Ordered rank size) F (Perform.statement run s.toNode)
      (Perform.statement run' s.toNode) fun _ => True := by
  have hlog : ∀ (e : Engine) log, ({ e with log } : Engine).store = e.store := fun _ _ => rfl
  have htempo (viaRef : Bool) (bpm : Value) : Leaves Engine.store (setTempo viaRef bpm) :=
    .setTempo hlog (fun _ _ => rfl) viaRef bpm
  have hvolume (viaRef : Bool) (level : Value) : Leaves Engine.store (setVolume viaRef level) :=
    .setVolume hlog (fun _ _ => rfl) viaRef level
  have hinstrument (viaRef : Bool) (name : Value) :
      Leaves Engine.store (setInstrument viaRef name) :=
    .setInstrument hlog (fun _ _ => rfl) viaRef name
  cases s with
  | note pitch duration =>
      exact steady (x := Perform.noteNode _) (.noteNode hlog (fun _ _ => rfl) _)
  | chord notes duration =>
      exact steady (x := Perform.chordNode _) (.chordNode hlog (fun _ _ => rfl) _)
  | rest length =>
      exact steady (x := do if (← get).palette == .soft then restNode _)
        (.softRest hlog (fun _ _ => rfl) _)
  | tempo bpm =>
      exact steady (x := valueOf _ _ >>= setTempo false) (.bind (.valueOf _ _) (htempo false))
  | volume level =>
      exact steady (x := valueOf _ _ >>= setVolume false) (.bind (.valueOf _ _) (hvolume false))
  | instrument name =>
      exact steady (x := Perform.lift _ >>= setInstrument false)
        (.bind (.lift _) (hinstrument false))
  | loop count statements =>
      exact loopNode .of_silent (body_toNodes (hinside statements List.mem_cons_self))
  | whileLoop condition statements =>
      exact whileNode .of_silent (body_toNodes (hinside statements List.mem_cons_self))
  | forLoop counter start stop statements =>
      refine forNode .of_silent (fun counter _ i e he => ?_)
        (body_toNodes (hinside statements List.mem_cons_self))
      exact he.setVariable fun x _ => .number (.int i)
  | branch condition first alternatives otherwise =>
      rw [Stmt.toNode_branch]
      refine branchNode .of_silent (body_toNodes nofun) (fun clauses hclauses clause hclause => ?_)
        (body_toNodes fun u hu => ?_)
      · cases hclauses
        obtain ⟨⟨condition, statements⟩, halternative, rfl⟩ := List.mem_map.1 hclause
        exact body_toNodes (hinside statements
          (List.mem_append_left _ (List.mem_map_of_mem halternative)))
      · cases otherwise with
        | none => cases hu
        | some statements =>
            exact hinside statements (List.mem_append_right _ List.mem_cons_self) u hu
  | define name parameters statements =>
      exact defineNode parameters ⟨hs.self.1, hs.self.2, hs.bodies statements List.mem_cons_self⟩
  | call name arguments =>
      cases hname : isRefName name with
      | true =>
          rw [Stmt.toNode, hname]
          exact steady (x := refCallNode _) (.refCallNode (Leaves.print hlog)
            (fun bpm => (htempo true bpm).read_eq) (fun level => (hvolume true level).read_eq)
            (fun name => (hinstrument true name).read_eq) _)
      | false =>
          rw [Stmt.toNode, hname]
          refine callNode .of_silent fun e table key function he htable hkey hfind => ?_
          cases hkey
          cases he table htable name function hfind with
          | number n =>
              have hnone : (n.toValue.field? "body").getD (.list []) = .list (Stmt.toNodes []) := by
                cases n <;> rfl
              rw [hnone]
              exact body_toNodes fun u hu => by cases hu
          | function parameters h => exact body_toNodes (hcalled name List.mem_cons_self _ h)
  | assign x value => exact assignNode hs.self
  | eval e =>
      cases e with
      | chord notes => exact pure _
      | logic l =>
          cases l with
          | arith a => cases a <;> exact pure _
          | compare _ _ _ | negation _ | connect _ _ _ => exact pure _

/-- How deep a statement goes is bounded by its size and by the ranks of what it calls: a call
starts anew with a body of bounded size, but one rank further down. -/
theorem performOver (beyond beyond' : Value → Perform Unit) {depth n : Nat} {s : Stmt}
    (hs : s.Wholly (Stmt.Orderly rank size)) (hcalls : ∀ callee ∈ s.calls, rank callee < n)
    (hdepth : sizeOf s + n * (size + 1) ≤ depth) :
    InStep (Engine.Ordered rank size) F (Perform.performOver beyond depth s.toNode)
      (Perform.performOver beyond' depth s.toNode) fun _ => True := by
  induction depth generalizing s n with
  | zero =>
      have hpos : 0 < sizeOf s := by cases s <;> simp
      omega
  | succ depth ih =>
      refine ranked hs (fun body hbody u hu => ?_) fun name hname body hfits u hu => ?_
      · have hlt := List.sizeOf_lt_of_mem hu
        have hbody' := Stmt.sizeOf_lt_of_bodies (Stmt.mem_bodies_of_runBodies hbody)
        refine ih ((hs.bodies body (Stmt.mem_bodies_of_runBodies hbody)).wholly hu) ?_ (n := n) ?_
        · exact fun callee h => hcalls callee (Stmt.mem_calls_of_runBodies hbody hu h)
        · omega
      · have hlt := List.sizeOf_lt_of_mem hu
        have hrank := hcalls name hname
        refine ih (hfits.orderly.wholly hu) (n := rank name)
          (fun callee h => hfits.falls callee (Stmt.mem_callsOf hu h)) ?_
        have hsize := hfits.size_le
        have hfall : (rank name + 1) * (size + 1) ≤ n * (size + 1) :=
          Nat.mul_le_mul_right _ hrank
        rw [Nat.succ_mul] at hfall
        omega

end InStep
end Perform

namespace Program

open Perform (executeWith performOver InStep)

theorem terminates_of_orderly {p : Program} {e : Engine}
    (hp : Stmt.Throughout (Stmt.Orderly rank size) p.executed) (he : e.Ordered rank size) :
    p.Terminates e := by
  obtain ⟨n, hn⟩ := exists_rank_lt rank (Stmt.callsOf p.executed)
  let depth := sizeOf p.executed + n * (size + 1)
  refine ⟨depth, (executeWith (performOver (fun _ => pure ()) depth) p.toNode).runOn e,
    fun beyond => ?_⟩
  have hbody : Perform.BodyInStep (Engine.Ordered rank size) (fun _ => False)
      (performOver (fun _ => pure ()) depth) (performOver beyond depth)
      ((p.toNode.field? "body").getD (.list [])) := by
    rw [p.toNode_shape.2]
    refine InStep.body_toNodes fun u hu => InStep.performOver _ _ (hp.wholly hu)
      (fun callee h => hn callee (Stmt.mem_callsOf hu h)) ?_
    have hlt := List.sizeOf_lt_of_mem hu
    omega
  rcases InStep.executeWith .of_silent p.toNode hbody e he with ⟨_, _, hfalse⟩ | ⟨hsame, -⟩
  · exact hfalse.elim
  · exact hsame

/-- Some assignment gives a quotient to a name of a smaller rank than that of the name at the head
of the quotient. -/
def HandsDown (rank : String → Nat) (p : Program) : Prop :=
  ∃ x dividend divisor y,
    (Stmt.assign x (.logic (.arith (.binary .div dividend divisor)))).Within p ∧
      dividend.source? = some y ∧ rank x < rank y

theorem orderly_of_ranked {p : Program} (hranked : ∀ s : Stmt, s.Within p → s.Ranked rank)
    (hquotients : ¬ p.HandsDown rank) : Stmt.Throughout (Stmt.Orderly rank (sizeOf p)) p := by
  intro s hs
  have hs' := hranked s hs
  cases s with
  | define name parameters body =>
      have hsize := hs.sizeOf_lt
      rw [Stmt.define.sizeOf_spec] at hsize
      exact ⟨hs', by omega⟩
  | assign x value =>
      intro y hy
      cases value with
      | chord notes => cases hy
      | logic l =>
          cases l with
          | arith a =>
              cases a with
              | number n => cases hy
              | name z =>
                  cases hy
                  exact hs'
              | binary o dividend divisor =>
                  cases o with
                  | div =>
                      by_cases hrank : rank y ≤ rank x
                      · exact hrank
                      · refine absurd ⟨x, dividend, divisor, y, hs, hy, ?_⟩ hquotients
                        exact Nat.lt_of_not_le hrank
                  | _ => cases hy
          | _ => cases hy
  | _ => trivial

/-- A text whose names have ranks comes to its end on a new engine. Only a quotient may hand a
function down to a name of a smaller rank; a run that does not come to its end for that ends with
the failure of statements that nest too deep. -/
theorem terminates_of_ranked {text : String} {p : Program}
    (hread : Reader.read .full text = .ok p) {rank : String → Nat}
    (hranked : ∀ s : Stmt, s.Within p → s.Ranked rank) (device : Device) :
    p.Terminates (.built .soft device) ∨
      p.HandsDown rank ∧
        ((Command.run .full text).respond (.built .soft device)).1 = .failed .nestedTooDeep := by
  by_cases hterminates : p.Terminates (.built .soft device)
  · exact .inl hterminates
  · refine .inr ⟨?_, ?_⟩
    · by_cases hquotients : p.HandsDown rank
      · exact hquotients
      · have horderly := throughout_executed (orderly_of_ranked hranked hquotients)
        exact absurd (terminates_of_orderly horderly (Engine.ordered_built device)) hterminates
    · have hfailed := nestedTooDeep_of_not_terminates hterminates Perform.depthLimit
      rw [respond_run hread, Perform.execute_eq_executeWith]
      exact congrArg Prod.fst (Perform.answer_error (Prod.ext hfailed rfl))

/-- A function that is called through a copy under another name. -/
theorem terminates_of_ranked_copy :
    let text := "fn f ( ) \x7b\nnote C4\n\x7d\nfn g ( ) \x7b\nf ( )\nf ( )\n\x7d\n" ++
      "h = g\nloop 2 \x7b\nh ( )\n\x7d"
    ∃ p, Reader.read .full text = .ok p ∧ p.Terminates (.built .soft .standard) := by
  intro text
  let p : Program := [
    .define "f" [] [.note (.single "C4") none], .define "g" [] [.call "f" [], .call "f" []],
    .assign "h" (.logic (.arith (.name "g"))), .loop ⟨['2'], none⟩ [.call "h" []]]
  let rank : String → Nat := fun x => if x = "f" then 0 else 1
  have htext : p.render = text := by decide
  have hread : Reader.read .full text = .ok p := htext ▸ read_render (by decide)
  let P : Stmt → Prop := fun s =>
    s.Ranked rank ∧ ∀ x a b, s ≠ .assign x (.logic (.arith (.binary .div a b)))
  have hnote : Stmt.Throughout P [.note (.single "C4") none] :=
    Stmt.throughout_iff.2 (List.forall_mem_singleton.2 ⟨⟨trivial, nofun⟩, nofun⟩)
  have hcalls (names : List String) : Stmt.Throughout P (names.map fun name => .call name []) := by
    refine Stmt.throughout_iff.2 fun s hs => ?_
    obtain ⟨name, -, rfl⟩ := List.mem_map.1 hs
    exact ⟨⟨trivial, nofun⟩, nofun⟩
  have hp : Stmt.Throughout P p := by
    refine Stmt.throughout_iff.2 ?_
    refine List.forall_mem_cons.2 ⟨⟨⟨nofun, nofun⟩, List.forall_mem_singleton.2 hnote⟩, ?_⟩
    refine List.forall_mem_cons.2
      ⟨⟨⟨?_, nofun⟩, List.forall_mem_singleton.2 (hcalls ["f", "f"])⟩, ?_⟩
    · change ∀ callee ∈ ["f", "f"], rank callee < rank "g"
      decide
    · refine List.forall_mem_cons.2 ⟨⟨⟨?_, fun x a b hassign => ?_⟩, nofun⟩, ?_⟩
      · change rank "g" ≤ rank "h"
        decide
      · cases hassign
      · exact List.forall_mem_singleton.2
          ⟨⟨trivial, nofun⟩, List.forall_mem_singleton.2 (hcalls ["h"])⟩
  refine ⟨p, hread, ?_⟩
  rcases terminates_of_ranked hread (fun s hs => (hp s hs).1) .standard with h | ⟨hdown, -⟩
  · exact h
  · obtain ⟨x, dividend, divisor, y, hwithin, -⟩ := hdown
    exact absurd rfl ((hp _ hwithin).2 x dividend divisor)

end Program

end TuneScript
