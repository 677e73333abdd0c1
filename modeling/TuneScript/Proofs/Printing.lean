import TuneScript.Program.Encoding
import TuneScript.Proofs.Spacing

/-!
A program written out and read back. Every operand that is not a single word stands in
parentheses, only an expression that is a statement ends with a semicolon, and each
statement stands on lines of its own. Main statement: the text is read as the program it
was written from.
-/

namespace TuneScript

/-- An operand, in parentheses unless it is one word. -/
def Arith.operandWords : Arith → List Lexeme
  | number n => [.numeral n]
  | name x => [.name x]
  | binary op l r => grouped (l.operandWords ++ .mark (.operator op) :: r.operandWords)

def Arith.words : Arith → List Lexeme
  | number n => [.numeral n]
  | name x => [.name x]
  | binary op l r => l.operandWords ++ .mark (.operator op) :: r.operandWords

def Logic.operandWords : Logic → List Lexeme
  | arith a => a.operandWords
  | compare r a b => grouped (a.operandWords ++ .mark (.relation r) :: b.operandWords)
  | negation e => grouped (.keyword .not :: e.operandWords)
  | connect c l r => grouped (l.operandWords ++ .keyword c.keyword :: r.operandWords)

def Logic.words : Logic → List Lexeme
  | arith a => a.words
  | compare r a b => a.operandWords ++ .mark (.relation r) :: b.operandWords
  | negation e => .keyword .not :: e.operandWords
  | connect c l r => l.operandWords ++ .keyword c.keyword :: r.operandWords

def Expr.words : Expr → List Lexeme
  | logic e => e.words
  | chord notes => notes.words

def argumentWords : List Expr → List Lexeme
  | [] => []
  | e :: es => e.words ++ es.flatMap fun e => .mark .comma :: e.words

/-- The lines of a body between braces, the first after its header. -/
def bracedLines (header : List Lexeme) (lines : List (List Lexeme)) : List (List Lexeme) :=
  (header ++ [.mark .openBrace]) :: (lines ++ [[.mark .closeBrace]])

namespace Stmt

mutual

def lines : Stmt → List (List Lexeme)
  | note pitch duration => [.keyword .note :: (pitch.words ++ durationWords duration)]
  | chord notes duration => [.keyword .chord :: (notes.words ++ durationWords duration)]
  | rest length => [.keyword .rest :: length.words]
  | tempo bpm => [[.keyword .tempo, .numeral bpm]]
  | volume level => [[.keyword .volume, .numeral level]]
  | instrument name => [[.keyword .refinst, .mark .equals, .name name]]
  | loop count body => bracedLines [.keyword .loop, .numeral count] (bodyLines body)
  | whileLoop condition body =>
    bracedLines (.keyword .whileLoop :: grouped condition.words) (bodyLines body)
  | forLoop counter start stop body =>
    bracedLines
      (.keyword .forLoop ::
        grouped [.name counter, .mark .comma, .numeral start, .mark .colon, .numeral stop])
      (bodyLines body)
  | branch condition body alternatives otherwise =>
    bracedLines (.keyword .branch :: grouped condition.words) (bodyLines body) ++
      alternativeLines alternatives ++ otherwiseLines otherwise
  | define name parameters body =>
    bracedLines (.keyword .define :: .name name :: grouped (parameterWords parameters))
      (bodyLines body)
  | call name arguments => [.name name :: grouped (argumentWords arguments)]
  | assign name value => [.name name :: .mark .equals :: value.words]
  | eval e => [e.words ++ [.mark .semicolon]]

def bodyLines : List Stmt → List (List Lexeme)
  | [] => []
  | s :: more => s.lines ++ bodyLines more

def alternativeLines : List (Logic × List Stmt) → List (List Lexeme)
  | [] => []
  | (condition, body) :: more =>
    bracedLines (.keyword .alternative :: grouped condition.words) (bodyLines body) ++
      alternativeLines more

def otherwiseLines : Option (List Stmt) → List (List Lexeme)
  | none => []
  | some body => bracedLines [.keyword .otherwise] (bodyLines body)

end

end Stmt

namespace Program

def words (p : Program) : List Lexeme := (Stmt.bodyLines p).flatten

/-- The text of a program: a blank between the words of a line, a line feed between lines. -/
def render (p : Program) : String :=
  String.ofList (['\n'].intercalate
    ((Stmt.bodyLines p).map fun line => [' '].intercalate (line.map Lexeme.chars)))

end Program

theorem Arith.spells_words (a : Arith) :
    Spells (.sum a) a.words ∧ Spells (.factor a) a.operandWords := by
  induction a with
  | number n => exact ⟨.ofTerm (.ofFactor (.number n)), .number n⟩
  | name x => exact ⟨.ofTerm (.ofFactor (.name x)), .name x⟩
  | binary op l r ihl ihr =>
      have hsum : Spells (.sum (.binary op l r)) (binary op l r).words := by
        cases hop : op.isProduct with
        | true => exact .ofTerm (.product hop (.ofFactor ihl.2) ihr.2)
        | false => exact .sum hop (.ofTerm (.ofFactor ihl.2)) (.ofFactor ihr.2)
      exact ⟨hsum, .arithGroup hsum⟩

theorem Logic.spells_words (e : Logic) :
    Spells (.disjunction e) e.words ∧ Spells (.primary e) e.operandWords := by
  induction e with
  | arith a =>
      obtain ⟨hsum, hfactor⟩ := a.spells_words
      exact ⟨.ofConjunction (.ofComparison (.ofPrimary (.ofSum hsum))),
        .ofSum (.ofTerm (.ofFactor hfactor))⟩
  | compare r a b =>
      have ha := (a.spells_words).2
      have hb := (b.spells_words).2
      have h : Spells (.comparison (.compare r a b)) (compare r a b).words :=
        .compare (.ofTerm (.ofFactor ha)) (.ofTerm (.ofFactor hb))
      exact ⟨.ofConjunction (.ofComparison h), .logicGroup (.ofConjunction (.ofComparison h))⟩
  | negation e ih =>
      have h : Spells (.comparison (.negation e)) (negation e).words := .negation ih.2
      exact ⟨.ofConjunction (.ofComparison h), .logicGroup (.ofConjunction (.ofComparison h))⟩
  | connect c l r ihl ihr =>
      have h : Spells (.disjunction (.connect c l r)) (connect c l r).words := by
        cases c with
        | and =>
            exact .ofConjunction
              (.conjunction (.ofComparison (.ofPrimary ihl.2)) (.ofPrimary ihr.2))
        | or =>
            exact .disjunction (.ofConjunction (.ofComparison (.ofPrimary ihl.2)))
              (.ofComparison (.ofPrimary ihr.2))
      exact ⟨h, .logicGroup h⟩

theorem Expr.spells_words (e : Expr) : Spells (.expression e) e.words := by
  cases e with
  | logic e => exact .logic (e.spells_words).1
  | chord notes => exact .chordLiteral notes

theorem spells_furtherArguments (es : List Expr) :
    Spells (.furtherArguments es) (es.flatMap fun e => .mark .comma :: e.words) := by
  induction es with
  | nil => exact .noArgument
  | cons e es ih => exact .argument e.spells_words ih

theorem flatten_bracedLines (header : List Lexeme) (lines : List (List Lexeme)) :
    (bracedLines header lines).flatten = header ++ braced lines.flatten := by
  simp [bracedLines, braced]

namespace Stmt

mutual

theorem spells_lines : (s : Stmt) → Spells (.statement s) s.lines.flatten
  | note pitch duration => by simpa [lines] using Spells.note pitch duration
  | chord notes duration => by simpa [lines] using Spells.chord notes duration
  | rest length => by simpa [lines] using Spells.rest length.spells_words
  | tempo bpm => by simpa [lines] using Spells.tempo bpm
  | volume level => by simpa [lines] using Spells.volume level
  | instrument name => by simpa [lines] using Spells.instrument name
  | loop count body => by
      simpa [lines, flatten_bracedLines] using Spells.loop (spells_bodyLines body)
  | whileLoop condition body => by
      simpa [lines, flatten_bracedLines] using
        Spells.whileLoop condition.spells_words.1 (spells_bodyLines body)
  | forLoop counter start stop body => by
      simpa [lines, flatten_bracedLines] using Spells.forLoop (spells_bodyLines body)
  | branch condition body alternatives otherwise => by
      simpa [lines, flatten_bracedLines] using
        Spells.branch condition.spells_words.1 (spells_bodyLines body)
          (spells_alternativeLines alternatives) (spells_otherwiseLines otherwise)
  | define name parameters body => by
      simpa [lines, flatten_bracedLines] using Spells.define (spells_bodyLines body)
  | call name [] => by simpa [lines, argumentWords] using Spells.callNone name
  | call name (e :: es) => by
      simpa [lines, argumentWords] using Spells.call e.spells_words (spells_furtherArguments es)
  | assign name value => by simpa [lines] using Spells.assign value.spells_words
  | eval e => by simpa [lines] using Spells.eval e.spells_words

theorem spells_bodyLines : (ss : List Stmt) → Spells (.body ss) (bodyLines ss).flatten
  | [] => by simpa [bodyLines] using Spells.noStatement
  | s :: more => by
      simpa [bodyLines] using Spells.statement s.spells_lines (spells_bodyLines more)

theorem spells_alternativeLines : (bs : List (Logic × List Stmt)) →
    Spells (.alternatives bs) (alternativeLines bs).flatten
  | [] => by simpa [alternativeLines] using Spells.noAlternative
  | (condition, body) :: more => by
      simpa [alternativeLines, flatten_bracedLines] using
        Spells.alternative condition.spells_words.1 (spells_bodyLines body)
          (spells_alternativeLines more)

theorem spells_otherwiseLines : (os : Option (List Stmt)) →
    Spells (.otherwise os) (otherwiseLines os).flatten
  | none => by simpa [otherwiseLines] using Spells.noOtherwise
  | some body => by
      simpa [otherwiseLines, flatten_bracedLines] using Spells.otherwise (spells_bodyLines body)

end

end Stmt

namespace Program

theorem spaced_render (p : Program) : Spaced (p.words.map Lexeme.chars) p.render.toList := by
  have hline : ∀ line : List Lexeme,
      Spaced (line.map Lexeme.chars) ([' '].intercalate (line.map Lexeme.chars)) :=
    fun line => Spaced.intercalate_words (by decide) _
  have hlines := Spaced.intercalate (c := '\n') (by decide) hline (Stmt.bodyLines p)
  rw [render, words, String.toList_ofList, List.map_flatten]
  simpa [List.flatMap] using hlines

/-- What is written out is read back. -/
theorem read_render {p : Program} (h : ∀ l ∈ p.words, l.isProper = true) :
    Reader.read .full p.render = .ok p :=
  Reader.read_of_spells (Stmt.spells_bodyLines p) h p.spaced_render

theorem toNode_of_length_ne_one {p : Program} (h : p.length ≠ 1) :
    p.toNode = Node.program (Stmt.toNodes p) := by
  match p with
  | [] => rfl
  | [s] => exact absurd rfl h
  | s :: t :: more => rfl

/-- A program of no statement or of several is read back from its text as its record. -/
theorem toNode_read_render {p : Program} (hlength : p.length ≠ 1)
    (h : ∀ l ∈ p.words, l.isProper = true) :
    (Reader.read .full p.render).map toNode = .ok (Node.program (Stmt.toNodes p)) := by
  rw [read_render h, Except.map, toNode_of_length_ne_one hlength]

theorem toNode_read_render_call :
    let p : Program := [
      .define "twice" ["x"] [
        .note (.several ⟨"C#4", ["Bb3"]⟩) (some ⟨['1'], some ['5']⟩),
        .eval (.logic (.arith (.binary .mul (.binary .add (.name "x") (.name "C4"))
          (.number ⟨['2'], none⟩))))],
      .branch (.connect .or (.negation (.arith (.name "x")))
          (.compare .le (.binary .sub (.name "x") (.name "y")) (.number ⟨['0'], none⟩)))
        [] [(.arith (.name "y"), [.tempo ⟨['9', '0'], none⟩])] (some []),
      .call "refVolume" [.logic (.arith (.number ⟨['8'], none⟩))]]
    (∀ l ∈ p.words, l.isProper = true) ∧
      (Reader.read .full p.render).map toNode = .ok (Node.program (Stmt.toNodes p)) := by
  intro p
  have h : ∀ l ∈ p.words, l.isProper = true := by decide
  exact ⟨h, toNode_read_render (by decide) h⟩

end Program
end TuneScript
