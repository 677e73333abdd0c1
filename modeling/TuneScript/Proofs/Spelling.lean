import TuneScript.Grammar.Lexeme

/-!
How the parts of a program are written as words. `Spells` has one case for each rule of
the language, with the tree that the rule makes, and knows nothing of reading: groups in
parentheses may stand wherever the rules allow them, so a tree has many spellings.
-/

namespace TuneScript

/-- A part of a program together with the place in the rules where it stands. -/
inductive Phrase where
  | factor (a : Arith)
  | term (a : Arith)
  | sum (a : Arith)
  | primary (e : Logic)
  | comparison (e : Logic)
  | conjunction (e : Logic)
  | disjunction (e : Logic)
  | expression (e : Expr)
  /-- The arguments after the first, each with its comma. -/
  | furtherArguments (es : List Expr)
  | statement (s : Stmt)
  | body (ss : List Stmt)
  | alternatives (bs : List (Logic × List Stmt))
  | otherwise (ss : Option (List Stmt))

def Operator.isProduct : Operator → Bool
  | mul | div => true
  | add | sub => false

def Connective.keyword : Connective → Keyword
  | and => .and
  | or => .or

/-- Words in parentheses. -/
def grouped (ls : List Lexeme) : List Lexeme := .mark .openParen :: (ls ++ [.mark .closeParen])

/-- Words in braces. -/
def braced (ls : List Lexeme) : List Lexeme := .mark .openBrace :: (ls ++ [.mark .closeBrace])

/-- What follows the first item of a list: each further one after a comma. -/
def afterCommas {α : Type} (word : α → Lexeme) (xs : List α) : List Lexeme :=
  xs.flatMap fun x => [.mark .comma, word x]

def Notes.words (notes : Notes) : List Lexeme :=
  .mark .openBracket :: .note notes.first ::
    (afterCommas .note notes.others ++ [.mark .closeBracket])

def Pitch.words : Pitch → List Lexeme
  | single note => [.note note]
  | several notes => notes.words

def durationWords : Option Numeral → List Lexeme
  | none => []
  | some n => [.mark .comma, .numeral n]

def parameterWords : List String → List Lexeme
  | [] => []
  | x :: xs => .name x :: afterCommas .name xs

inductive Spells : Phrase → List Lexeme → Prop where
  | number (n : Numeral) : Spells (.factor (.number n)) [.numeral n]
  | name (x : String) : Spells (.factor (.name x)) [.name x]
  | arithGroup {a ls} (h : Spells (.sum a) ls) : Spells (.factor a) (grouped ls)
  | ofFactor {a ls} (h : Spells (.factor a) ls) : Spells (.term a) ls
  | product {o : Operator} {a b la lb} (ho : o.isProduct = true) (ha : Spells (.term a) la)
      (hb : Spells (.factor b) lb) :
      Spells (.term (.binary o a b)) (la ++ .mark (.operator o) :: lb)
  | ofTerm {a ls} (h : Spells (.term a) ls) : Spells (.sum a) ls
  | sum {o : Operator} {a b la lb} (ho : o.isProduct = false) (ha : Spells (.sum a) la)
      (hb : Spells (.term b) lb) :
      Spells (.sum (.binary o a b)) (la ++ .mark (.operator o) :: lb)
  | logicGroup {e ls} (h : Spells (.disjunction e) ls) : Spells (.primary e) (grouped ls)
  | ofSum {a ls} (h : Spells (.sum a) ls) : Spells (.primary (.arith a)) ls
  | compare {r a b la lb} (ha : Spells (.sum a) la) (hb : Spells (.sum b) lb) :
      Spells (.comparison (.compare r a b)) (la ++ .mark (.relation r) :: lb)
  | negation {e ls} (h : Spells (.primary e) ls) :
      Spells (.comparison (.negation e)) (.keyword .not :: ls)
  | ofPrimary {e ls} (h : Spells (.primary e) ls) : Spells (.comparison e) ls
  | conjunction {e f le lf} (he : Spells (.conjunction e) le) (hf : Spells (.comparison f) lf) :
      Spells (.conjunction (.connect .and e f)) (le ++ .keyword .and :: lf)
  | ofComparison {e ls} (h : Spells (.comparison e) ls) : Spells (.conjunction e) ls
  | disjunction {e f le lf} (he : Spells (.disjunction e) le)
      (hf : Spells (.conjunction f) lf) :
      Spells (.disjunction (.connect .or e f)) (le ++ .keyword .or :: lf)
  | ofConjunction {e ls} (h : Spells (.conjunction e) ls) : Spells (.disjunction e) ls
  | logic {e ls} (h : Spells (.disjunction e) ls) : Spells (.expression (.logic e)) ls
  | chordLiteral (notes : Notes) : Spells (.expression (.chord notes)) notes.words
  | noArgument : Spells (.furtherArguments []) []
  | argument {e es le ls} (he : Spells (.expression e) le)
      (hs : Spells (.furtherArguments es) ls) :
      Spells (.furtherArguments (e :: es)) (.mark .comma :: (le ++ ls))
  | note (pitch : Pitch) (duration : Option Numeral) :
      Spells (.statement (.note pitch duration))
        (.keyword .note :: (pitch.words ++ durationWords duration))
  | chord (notes : Notes) (duration : Option Numeral) :
      Spells (.statement (.chord notes duration))
        (.keyword .chord :: (notes.words ++ durationWords duration))
  | rest {e ls} (h : Spells (.expression e) ls) :
      Spells (.statement (.rest e)) (.keyword .rest :: ls)
  | tempo (n : Numeral) : Spells (.statement (.tempo n)) [.keyword .tempo, .numeral n]
  | volume (n : Numeral) : Spells (.statement (.volume n)) [.keyword .volume, .numeral n]
  | instrument (x : String) :
      Spells (.statement (.instrument x)) [.keyword .refinst, .mark .equals, .name x]
  | loop {n ss ls} (h : Spells (.body ss) ls) :
      Spells (.statement (.loop n ss)) (.keyword .loop :: .numeral n :: braced ls)
  | whileLoop {e ss le ls} (he : Spells (.disjunction e) le) (hs : Spells (.body ss) ls) :
      Spells (.statement (.whileLoop e ss)) (.keyword .whileLoop :: (grouped le ++ braced ls))
  | forLoop {x a b ss ls} (h : Spells (.body ss) ls) :
      Spells (.statement (.forLoop x a b ss))
        (.keyword .forLoop ::
          (grouped [.name x, .mark .comma, .numeral a, .mark .colon, .numeral b] ++ braced ls))
  | branch {e ss bs os le ls lb lo} (he : Spells (.disjunction e) le) (hs : Spells (.body ss) ls)
      (hb : Spells (.alternatives bs) lb) (ho : Spells (.otherwise os) lo) :
      Spells (.statement (.branch e ss bs os))
        (.keyword .branch :: (grouped le ++ braced ls ++ lb ++ lo))
  | define {f xs ss ls} (h : Spells (.body ss) ls) :
      Spells (.statement (.define f xs ss))
        (.keyword .define :: .name f :: (grouped (parameterWords xs) ++ braced ls))
  | callNone (f : String) : Spells (.statement (.call f [])) (.name f :: grouped [])
  | call {f e es le ls} (he : Spells (.expression e) le) (hs : Spells (.furtherArguments es) ls) :
      Spells (.statement (.call f (e :: es))) (.name f :: grouped (le ++ ls))
  | assign {x e ls} (h : Spells (.expression e) ls) :
      Spells (.statement (.assign x e)) (.name x :: .mark .equals :: ls)
  | eval {e ls} (h : Spells (.expression e) ls) :
      Spells (.statement (.eval e)) (ls ++ [.mark .semicolon])
  | noStatement : Spells (.body []) []
  | statement {s ss l ls} (h : Spells (.statement s) l) (hs : Spells (.body ss) ls) :
      Spells (.body (s :: ss)) (l ++ ls)
  | noAlternative : Spells (.alternatives []) []
  | alternative {e ss bs le ls lb} (he : Spells (.disjunction e) le) (hs : Spells (.body ss) ls)
      (hb : Spells (.alternatives bs) lb) :
      Spells (.alternatives ((e, ss) :: bs))
        (.keyword .alternative :: (grouped le ++ braced ls ++ lb))
  | noOtherwise : Spells (.otherwise none) []
  | otherwise {ss ls} (h : Spells (.body ss) ls) :
      Spells (.otherwise (some ss)) (.keyword .otherwise :: braced ls)

namespace Spells

/-- Lists grow at their end while they are read. -/
theorem argument_last {e : Expr} {es : List Expr} {le ls : List Lexeme}
    (hs : Spells (.furtherArguments es) ls) (he : Spells (.expression e) le) :
    Spells (.furtherArguments (es ++ [e])) (ls ++ .mark .comma :: le) := by
  induction es generalizing ls with
  | nil =>
      cases hs
      simpa using Spells.argument he .noArgument
  | cons d ds ih =>
      cases hs with
      | argument hd hds => simpa using Spells.argument hd (ih hds)

theorem body_append {ss ts : List Stmt} {ls lt : List Lexeme} (hs : Spells (.body ss) ls)
    (ht : Spells (.body ts) lt) : Spells (.body (ss ++ ts)) (ls ++ lt) := by
  induction ss generalizing ls with
  | nil =>
      cases hs
      exact ht
  | cons s ss ih =>
      cases hs with
      | statement h hss => simpa using Spells.statement h (ih hss)

theorem single {s : Stmt} {ls : List Lexeme} (h : Spells (.statement s) ls) :
    Spells (.body [s]) ls := by
  simpa using Spells.statement h .noStatement

theorem alternative_last {e : Logic} {ss : List Stmt} {bs : List (Logic × List Stmt)}
    {le ls lb : List Lexeme} (hb : Spells (.alternatives bs) lb) (he : Spells (.disjunction e) le)
    (hs : Spells (.body ss) ls) :
    Spells (.alternatives (bs ++ [(e, ss)]))
      (lb ++ .keyword .alternative :: (grouped le ++ braced ls)) := by
  induction bs generalizing lb with
  | nil =>
      cases hb
      simpa using Spells.alternative he hs .noAlternative
  | cons b bs ih =>
      cases hb with
      | alternative hc ht hbs => simpa using Spells.alternative hc ht (ih hbs)

end Spells
end TuneScript
