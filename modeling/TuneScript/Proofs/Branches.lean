import TuneScript.Proofs.Printing
import TuneScript.Proofs.Programs
import TuneScript.Proofs.Words

/-!
What becomes of the statements between the braces of a conditional. The record of a
conditional separates the parts after the condition by whether they are records; all
statements are, so none of the first braces is kept, and all of the others are.
-/

namespace TuneScript

namespace Stmt

/-- What stands between the braces of a statement, one list for each pair. -/
def bodies : Stmt → List (List Stmt)
  | loop _ body | whileLoop _ body | forLoop _ _ _ body | define _ _ body => [body]
  | branch _ body alternatives otherwise =>
    body :: (alternatives.map Prod.snd ++ otherwise.toList)
  | _ => []

/-- A statement stands in a list of statements, at any depth. -/
inductive Within (s : Stmt) : List Stmt → Prop where
  | here {body} (h : s ∈ body) : Within s body
  | inside {t inner body} (ht : t ∈ body) (hinner : inner ∈ t.bodies) (h : Within s inner) :
      Within s body

end Stmt

namespace Spells

theorem mem {s : Stmt} {body : List Stmt} {ls : List Lexeme} (h : Spells (.body body) ls)
    (hs : s ∈ body) : ∃ l, l <:+: ls ∧ Spells (.statement s) l := by
  induction body generalizing ls with
  | nil => cases hs
  | cons t body ih =>
      cases h with
      | statement ht hbody =>
          rcases List.mem_cons.1 hs with rfl | hs
          · exact ⟨_, (List.prefix_append _ _).isInfix, ht⟩
          · obtain ⟨l, hl, hspells⟩ := ih hbody hs
            exact ⟨l, hl.trans (List.suffix_append _ _).isInfix, hspells⟩

theorem infix_braced (ls : List Lexeme) : ls <:+: braced ls :=
  ⟨[.mark .openBrace], [.mark .closeBrace], rfl⟩

theorem mem_alternatives {body : List Stmt} {bs : List (Logic × List Stmt)} {lb : List Lexeme}
    (h : Spells (.alternatives bs) lb) (hbody : body ∈ bs.map Prod.snd) :
    ∃ ls, ls <:+: lb ∧ Spells (.body body) ls := by
  induction bs generalizing lb with
  | nil => cases hbody
  | cons b bs ih =>
      cases h with
      | @alternative e ss _ le ls lb he hs hb =>
          rcases List.mem_cons.1 hbody with rfl | hbody
          · exact ⟨ls, (infix_braced ls).trans ⟨.keyword .alternative :: grouped le, lb, rfl⟩, hs⟩
          · obtain ⟨l, hl, hspells⟩ := ih hb hbody
            exact ⟨l, hl.trans ⟨.keyword .alternative :: (grouped le ++ braced ls), [], by simp⟩,
              hspells⟩

theorem mem_otherwise {body : List Stmt} {os : Option (List Stmt)} {lo : List Lexeme}
    (h : Spells (.otherwise os) lo) (hbody : body ∈ os.toList) :
    ∃ ls, ls <:+: lo ∧ Spells (.body body) ls := by
  cases h with
  | noOtherwise => cases hbody
  | @otherwise ss ls h =>
      cases List.mem_singleton.1 hbody
      exact ⟨ls, (infix_braced ls).trans ⟨[.keyword .otherwise], [], by simp⟩, h⟩

theorem mem_bodies {t : Stmt} {body : List Stmt} {l : List Lexeme} (h : Spells (.statement t) l)
    (hbody : body ∈ t.bodies) : ∃ ls, ls <:+: l ∧ Spells (.body body) ls := by
  cases h with
  | @loop n ss ls h =>
      cases List.mem_singleton.1 hbody
      exact ⟨ls, (infix_braced ls).trans ⟨[.keyword .loop, .numeral n], [], by simp⟩, h⟩
  | @whileLoop e ss le ls he h =>
      cases List.mem_singleton.1 hbody
      exact ⟨ls, (infix_braced ls).trans ⟨.keyword .whileLoop :: grouped le, [], by simp⟩, h⟩
  | @forLoop x a b ss ls h =>
      cases List.mem_singleton.1 hbody
      exact ⟨ls, (infix_braced ls).trans ((List.suffix_append _ _).trans
        (List.suffix_cons _ _)).isInfix, h⟩
  | @define f xs ss ls h =>
      cases List.mem_singleton.1 hbody
      exact ⟨ls, (infix_braced ls).trans ((List.suffix_append _ _).trans
        ((List.suffix_cons _ _).trans (List.suffix_cons _ _))).isInfix, h⟩
  | @branch e ss bs os le ls lb lo he hs hb ho =>
      rcases List.mem_cons.1 hbody with rfl | hmore
      · exact ⟨ls, (infix_braced ls).trans ⟨.keyword .branch :: grouped le, lb ++ lo, by simp⟩, hs⟩
      · rcases List.mem_append.1 hmore with hbody | hbody
        · obtain ⟨l, hl, hspells⟩ := hb.mem_alternatives hbody
          exact ⟨l, hl.trans ⟨.keyword .branch :: (grouped le ++ braced ls), lo, by simp⟩, hspells⟩
        · obtain ⟨l, hl, hspells⟩ := ho.mem_otherwise hbody
          exact ⟨l, hl.trans ⟨.keyword .branch :: (grouped le ++ braced ls ++ lb), [], by simp⟩,
            hspells⟩
  | _ => cases hbody

/-- A statement at any depth is spelt somewhere in the words of the whole. -/
theorem within {s : Stmt} {body : List Stmt} {ls : List Lexeme} (hs : s.Within body)
    (h : Spells (.body body) ls) : ∃ l, l <:+: ls ∧ Spells (.statement s) l := by
  induction hs generalizing ls with
  | here hmem => exact h.mem hmem
  | inside ht hinner _ ih =>
      obtain ⟨lt, hlt, hspellsT⟩ := h.mem ht
      obtain ⟨li, hli, hspellsI⟩ := hspellsT.mem_bodies hinner
      obtain ⟨l, hl, hspells⟩ := ih hspellsI
      exact ⟨l, hl.trans (hli.trans hlt), hspells⟩

end Spells

/-- A conditional all of whose parts are records has an empty first body. -/
theorem Node.branch_of_isRecord {parts : List Value} (h : ∀ v ∈ parts, v.isRecord = true)
    (condition : Value) :
    branch condition parts = node "if" [
      ("condition", condition),
      ("then_body", .list []),
      ("elseif_clauses", .list (parts.filter (hasType "elseif_clause"))),
      ("else_body", otherwise parts)] := by
  cases parts with
  | nil => rfl
  | cons v parts => simp [branch, h v List.mem_cons_self]

namespace Stmt

/-- The record that has every statement of a conditional in its place. -/
def conditional (condition : Logic) (body : List Stmt) (alternatives : List (Logic × List Stmt))
    (otherwise : Option (List Stmt)) : Value :=
  Node.node "if" [
    ("condition", condition.toNode),
    ("then_body", .list (toNodes body)),
    ("elseif_clauses", .list (alternatives.map fun (condition, body) =>
      Node.elseifClause condition.toNode (toNodes body))),
    ("else_body", .list (toNodes (otherwise.getD [])))]

theorem alternativeNodes_eq_map (alternatives : List (Logic × List Stmt)) :
    alternativeNodes alternatives = alternatives.map fun (condition, body) =>
      Node.elseifClause condition.toNode (toNodes body) := by
  induction alternatives with
  | nil => rfl
  | cons alternative more ih => rw [alternativeNodes, ih, List.map_cons]

/-- The types of the records of statements; clauses have others. -/
theorem hasType_clause (s : Stmt) :
    Node.hasType "elseif_clause" s.toNode = false ∧
      Node.hasType "else_clause" s.toNode = false := by
  cases s with
  | eval e =>
      cases e with
      | logic l =>
          cases l with
          | arith a => cases a <;> exact ⟨rfl, rfl⟩
          | compare _ _ _ | negation _ | connect _ _ _ => exact ⟨rfl, rfl⟩
      | chord _ => exact ⟨rfl, rfl⟩
  | call name _ =>
      rw [toNode]
      cases isRefName name <;> exact ⟨rfl, rfl⟩
  | _ => exact ⟨rfl, rfl⟩

theorem toNodes_eq_map (body : List Stmt) : toNodes body = body.map toNode := by
  induction body with
  | nil => rfl
  | cons s body ih => rw [toNodes, ih, List.map_cons]

theorem filter_toNodes {type : String} (h : ∀ s : Stmt, Node.hasType type s.toNode = false)
    (body : List Stmt) : (toNodes body).filter (Node.hasType type) = [] := by
  refine List.filter_eq_nil_iff.2 fun v hv => ?_
  rw [toNodes_eq_map] at hv
  obtain ⟨s, -, rfl⟩ := List.mem_map.1 hv
  rw [h s]
  exact Bool.false_ne_true

/-- All parts of a conditional after its condition. -/
def parts (body : List Stmt) (alternatives : List (Logic × List Stmt))
    (otherwise : Option (List Stmt)) : List Value :=
  toNodes body ++ alternativeNodes alternatives ++ otherwiseNodes otherwise

variable (body : List Stmt) (alternatives : List (Logic × List Stmt))
  (otherwise : Option (List Stmt))

theorem isRecord_parts : ∀ v ∈ parts body alternatives otherwise, v.isRecord = true := by
  intro v hv
  rcases List.mem_append.1 hv with hv | hv
  · rcases List.mem_append.1 hv with hv | hv
    · rw [toNodes_eq_map] at hv
      obtain ⟨s, -, rfl⟩ := List.mem_map.1 hv
      exact s.toNode_shape.1
    · rw [alternativeNodes_eq_map] at hv
      obtain ⟨alternative, -, rfl⟩ := List.mem_map.1 hv
      rfl
  · cases otherwise with
    | none => cases hv
    | some body =>
        cases List.mem_singleton.1 hv
        rfl

theorem filter_elseif_parts :
    (parts body alternatives otherwise).filter (Node.hasType "elseif_clause") =
      alternativeNodes alternatives := by
  have hbody := filter_toNodes (fun s => s.hasType_clause.1) body
  have halternatives : (alternativeNodes alternatives).filter (Node.hasType "elseif_clause") =
      alternativeNodes alternatives := by
    refine List.filter_eq_self.2 fun v hv => ?_
    rw [alternativeNodes_eq_map] at hv
    obtain ⟨alternative, -, rfl⟩ := List.mem_map.1 hv
    rfl
  have hotherwise : (otherwiseNodes otherwise).filter (Node.hasType "elseif_clause") = [] := by
    cases otherwise <;> rfl
  rw [parts, List.filter_append, List.filter_append, hbody, halternatives, hotherwise,
    List.nil_append, List.append_nil]

theorem filter_else_parts :
    (parts body alternatives otherwise).filter (Node.hasType "else_clause") =
      otherwiseNodes otherwise := by
  have hbody := filter_toNodes (fun s => s.hasType_clause.2) body
  have halternatives :
      (alternativeNodes alternatives).filter (Node.hasType "else_clause") = [] := by
    refine List.filter_eq_nil_iff.2 fun v hv => ?_
    rw [alternativeNodes_eq_map] at hv
    obtain ⟨alternative, -, rfl⟩ := List.mem_map.1 hv
    exact Bool.false_ne_true
  have hotherwise : (otherwiseNodes otherwise).filter (Node.hasType "else_clause") =
      otherwiseNodes otherwise := by
    cases otherwise <;> rfl
  rw [parts, List.filter_append, List.filter_append, hbody, halternatives, hotherwise,
    List.nil_append, List.nil_append]

/-- Of the statements between the first braces the record of a conditional keeps none. -/
theorem toNode_branch (condition : Logic) :
    (branch condition body alternatives otherwise).toNode =
      conditional condition [] alternatives otherwise := by
  have helse : Node.otherwise (parts body alternatives otherwise) =
      .list (toNodes (otherwise.getD [])) := by
    rw [Node.otherwise, filter_else_parts]
    cases otherwise <;> rfl
  change Node.branch condition.toNode (parts body alternatives otherwise) = _
  rw [Node.branch_of_isRecord (isRecord_parts body alternatives otherwise), filter_elseif_parts,
    helse, alternativeNodes_eq_map]
  rfl

theorem toNode_branch_eq_conditional_iff (condition : Logic) :
    (branch condition body alternatives otherwise).toNode =
      conditional condition body alternatives otherwise ↔ body = [] := by
  rw [toNode_branch]
  constructor
  · intro h
    have hfirst := congrArg (Value.field? "then_body") h
    change some (Value.list []) = some (.list (toNodes body)) at hfirst
    cases body with
    | nil => rfl
    | cons s body => cases hfirst
  · rintro rfl
    rfl

end Stmt

namespace Perform

/-- When its condition holds a conditional prints a line and does nothing else. -/
theorem alike_branch {condition : Logic} {e : Engine} (h : e.holds condition.toNode = .ok true)
    (body : List Stmt) (alternatives : List (Logic × List Stmt))
    (otherwise : Option (List Stmt)) :
    Alike ((node (Stmt.branch condition body alternatives otherwise).toNode).runOn e)
      (.ok (), e) := by
  rw [Stmt.toNode_branch]
  have hholds : (holds condition.toNode).runOn e = (.ok true, e) := by
    rw [holds, runOn_get, h, runOn_lift]
  change Alike ((holds condition.toNode >>= fun holds => _).runOn e) _
  rw [runOn_bind, hholds]
  exact alike_say (.pure ()) "✅ if 條件成立" e

end Perform

/-- A value stands somewhere in another one. -/
inductive Value.Occurs (v : Value) : Value → Prop where
  | here : Occurs v v
  | item {w items} (hw : w ∈ items) (h : Occurs v w) : Occurs v (.list items)
  | field {w u} (key : String) (hu : w.field? key = some u) (h : Occurs v u) : Occurs v w

namespace Stmt

/-- The pairs of braces of a statement that do not come right after the condition of a
conditional. -/
def keptBodies : Stmt → List (List Stmt)
  | branch _ _ alternatives otherwise => alternatives.map Prod.snd ++ otherwise.toList
  | s => s.bodies

/-- A statement stands in a list of statements, and not between the first braces of a
conditional there. -/
inductive Kept (s : Stmt) : List Stmt → Prop where
  | here {body} (h : s ∈ body) : Kept s body
  | inside {t inner body} (ht : t ∈ body) (hinner : inner ∈ t.keptBodies) (h : Kept s inner) :
      Kept s body

theorem occurs_body {v : Value} {t : Stmt} {inner : List Stmt} (hinner : inner ∈ t.keptBodies)
    (h : v.Occurs (.list (toNodes inner))) : v.Occurs t.toNode := by
  cases t with
  | loop _ _ | whileLoop _ _ | forLoop _ _ _ _ | define _ _ _ =>
      cases List.mem_singleton.1 hinner
      exact .field "body" rfl h
  | branch condition body alternatives otherwise =>
      rw [toNode_branch]
      rcases List.mem_append.1 hinner with hinner | hinner
      · obtain ⟨alternative, halternative, rfl⟩ := List.mem_map.1 hinner
        exact .field "elseif_clauses" rfl (.item (List.mem_map_of_mem halternative)
          (.field "body" rfl h))
      · cases otherwise with
        | none => cases hinner
        | some statements =>
            cases List.mem_singleton.1 hinner
            exact .field "else_body" rfl h
  | _ => cases hinner

theorem Kept.occurs {s : Stmt} {body : List Stmt} (h : s.Kept body) :
    ∃ t ∈ body, s.toNode.Occurs t.toNode := by
  induction h with
  | here hmem => exact ⟨s, hmem, .here⟩
  | inside ht hinner _ ih =>
      obtain ⟨u, hu, hoccurs⟩ := ih
      refine ⟨_, ht, occurs_body hinner (.item ?_ hoccurs)⟩
      rw [toNodes_eq_map]
      exact List.mem_map_of_mem hu

end Stmt

theorem Program.occurs_toNode {p : Program} {t : Stmt} (ht : t ∈ p) : t.toNode.Occurs p.toNode := by
  match p with
  | [s] =>
      cases List.mem_singleton.1 ht
      exact .here
  | s :: s' :: p =>
      refine .field "body" rfl (.item ?_ .here)
      rw [Stmt.toNodes_eq_map]
      exact List.mem_map_of_mem ht

theorem Value.Occurs.trans {u v w : Value} (h : u.Occurs v) (h' : v.Occurs w) : u.Occurs w := by
  induction h' with
  | here => exact h
  | item hw _ ih => exact .item hw ih
  | field key hu _ ih => exact .field key hu ih

namespace Reader

/-- The conditionals of a text, at any depth, with what is written between their braces. In
the record of a conditional the first braces are empty, whatever stands in them, and all
other statements are in their places; so nothing is run when the condition holds. -/
theorem branch_of_read {text : String} {p : Program} (hread : read .full text = .ok p) :
    ∃ ls, Written false ls text.toList ∧ Spells (.body p) ls ∧
      ∀ condition body alternatives otherwise,
        Stmt.Within (.branch condition body alternatives otherwise) p →
        (∃ le lb la lo,
          .keyword .branch :: (grouped le ++ braced lb ++ la ++ lo) <:+: ls ∧
          Spells (.disjunction condition) le ∧ Spells (.body body) lb ∧
          Spells (.alternatives alternatives) la ∧ Spells (.otherwise otherwise) lo) ∧
        (Stmt.branch condition body alternatives otherwise).toNode =
          Stmt.conditional condition [] alternatives otherwise ∧
        ((Stmt.branch condition body alternatives otherwise).toNode =
          Stmt.conditional condition body alternatives otherwise ↔ body = []) ∧
        (Stmt.Kept (.branch condition body alternatives otherwise) p →
          (Stmt.branch condition body alternatives otherwise).toNode.Occurs p.toNode) ∧
        ∀ e : Engine, e.holds condition.toNode = .ok true →
          Alike ((Perform.node (Stmt.branch condition body alternatives otherwise).toNode).runOn e)
            (.ok (), e) := by
  obtain ⟨ls, hwritten, hspells⟩ := written_of_read hread
  refine ⟨ls, hwritten, hspells, fun condition body alternatives otherwise hwithin => ?_⟩
  refine ⟨?_, Stmt.toNode_branch body alternatives otherwise condition,
    Stmt.toNode_branch_eq_conditional_iff body alternatives otherwise condition, fun hkept => ?_,
    fun e h => Perform.alike_branch h body alternatives otherwise⟩
  · obtain ⟨l, hl, hbranch⟩ := Spells.within hwithin hspells
    cases hbranch with
    | branch he hs hb ho => exact ⟨_, _, _, _, hl, he, hs, hb, ho⟩
  · obtain ⟨t, ht, hoccurs⟩ := hkept.occurs
    exact hoccurs.trans (Program.occurs_toNode ht)

theorem branch_of_read_in_loop :
    let text :=
      "loop 2 \x7b\nif ( x ) \x7b\nnote C4\n\x7d\nelse \x7b\ntempo 90\n\x7d\n\x7d\nvolume 50"
    let condition : Logic := .arith (.name "x")
    let body : List Stmt := [.note (.single "C4") none]
    let otherwise : List Stmt := [.tempo ⟨['9', '0'], none⟩]
    let p : Program :=
      [.loop ⟨['2'], none⟩ [.branch condition body [] (some otherwise)], .volume ⟨['5', '0'], none⟩]
    read .full text = .ok p ∧ Stmt.Within (.branch condition body [] (some otherwise)) p ∧
      (Stmt.conditional condition [] [] (some otherwise)).Occurs p.toNode := by
  intro text condition body otherwise p
  have htext : p.render = text := by decide
  have hread : read .full text = .ok p := htext ▸ Program.read_render (by decide)
  have hwithin : Stmt.Within (.branch condition body [] (some otherwise)) p :=
    .inside List.mem_cons_self List.mem_cons_self (.here List.mem_cons_self)
  obtain ⟨_, -, -, h⟩ := branch_of_read hread
  obtain ⟨-, hnode, -, hoccurs, -⟩ := h _ _ _ _ hwithin
  refine ⟨hread, hwithin, ?_⟩
  rw [← hnode]
  exact hoccurs (.inside List.mem_cons_self List.mem_cons_self (.here List.mem_cons_self))

theorem lost_statement :
    let condition : Logic := .arith (.number ⟨['1'], none⟩)
    let body : List Stmt := [.note (.single "C4") none]
    let p : Program := [.branch condition body [] none]
    read .full "if ( 1 ) \x7b\nnote C4\n\x7d" = .ok p ∧
      p.toNode.field? "then_body" ≠ some (.list (Stmt.toNodes body)) := by
  intro condition body p
  have htext : p.render = "if ( 1 ) \x7b\nnote C4\n\x7d" := by decide
  refine ⟨htext ▸ Program.read_render (by decide), fun h => ?_⟩
  cases h

end Reader
end TuneScript
