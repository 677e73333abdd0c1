import TuneScript.Proofs.Spacing

/-!
The rules of the language as data, and what can be derived from them. A derivation makes no
tree and knows nothing of the order in which words are read. Main statement: a text of
words that stand apart is read as a program only if its words derive from `start`, and it
is read as one whenever they do so by the rules that tell names from keywords and notes.
-/

namespace TuneScript

/-- The rules in full, or so that no word can be taken for another: a name is no keyword,
a note is no expression, and a call has no names of its own. -/
inductive Extent where
  | full | plain

/-- What a word is derived from. -/
inductive Symbol where
  | word (t : Terminal)
  /-- A name that starts with `ref` and a capital letter. -/
  | ownName

inductive Nonterminal where
  | start | statement
  | noteStatement | noteValue | noteArray | chordStatement | restStatement | tempoStatement
  | volumeStatement | instrumentStatement
  | loopStatement | whileStatement | forStatement | range | branchStatement | alternative
  | otherwise | defineStatement | callStatement | parameters | arguments | assignment
  | expression | logical | disjunction | conjunction | comparison | primary
  | sum | term | factor | atom
  | noteLiteral | chordLiteral | noteList | duration | identifier | ownIdentifier | number
  deriving DecidableEq

/-- The right side of a rule. -/
inductive Form where
  | symbol (s : Symbol)
  | rule (r : Nonterminal)
  | empty
  | never
  | seq (f g : Form)
  | either (f g : Form)
  | many (f : Form)

namespace Form

def word (t : Terminal) : Form := symbol (.word t)

def keyword (k : Keyword) : Form := word (.keyword k)

def mark (m : Mark) : Form := word (.mark m)

def sequence : List Form → Form
  | [] => empty
  | [f] => f
  | f :: g :: fs => seq f (sequence (g :: fs))

def choice : List Form → Form
  | [] => never
  | f :: fs => either f (choice fs)

def optional (f : Form) : Form := either empty f

/-- Forms with commas between them, at least one. -/
def separated (f : Form) : Form := seq f (many (sequence [mark .comma, f]))

def grouped (f : Form) : Form := sequence [mark .openParen, f, mark .closeParen]

def bracketed (f : Form) : Form := sequence [mark .openBracket, f, mark .closeBracket]

/-- A body in braces. -/
def body : Form := sequence [mark .openBrace, many (rule .statement), mark .closeBrace]

/-- A sum or a product with one more operand on its right. -/
def extended (left : Nonterminal) (m : Terminal) (right : Nonterminal) : Form :=
  sequence [rule left, word m, rule right]

end Form

/-- The kinds of statements apart from expressions. -/
def Nonterminal.statements : List Nonterminal :=
  [noteStatement, chordStatement, tempoStatement, volumeStatement, instrumentStatement,
    restStatement, loopStatement, defineStatement, callStatement, branchStatement, whileStatement,
    forStatement, assignment]

open Form in
def Nonterminal.form (x : Extent) : Nonterminal → Form
  | start => many (rule statement)
  | statement => choice (statements.map rule ++ [sequence [rule expression, mark .semicolon]])
  | noteStatement =>
    sequence [keyword .note, rule noteValue, optional (sequence [mark .comma, rule duration])]
  | noteValue => choice [rule noteLiteral, rule noteArray]
  | noteArray => bracketed (rule noteList)
  | chordStatement =>
    sequence [keyword .chord, rule chordLiteral, optional (sequence [mark .comma, rule duration])]
  | restStatement => sequence [keyword .rest, rule expression]
  | tempoStatement => sequence [keyword .tempo, rule number]
  | volumeStatement => sequence [keyword .volume, rule number]
  | instrumentStatement => sequence [keyword .refinst, mark .equals, word .name]
  | loopStatement => sequence [keyword .loop, rule number, body]
  | whileStatement => sequence [keyword .whileLoop, Form.grouped (rule logical), body]
  | forStatement =>
    sequence [keyword .forLoop,
      Form.grouped (sequence [rule identifier, mark .comma, rule range]), body]
  | range => sequence [rule number, mark .colon, rule number]
  | branchStatement =>
    sequence [keyword .branch, Form.grouped (rule logical), body, many (rule alternative),
      optional (rule otherwise)]
  | alternative => sequence [keyword .alternative, Form.grouped (rule logical), body]
  | otherwise => sequence [keyword .otherwise, body]
  | defineStatement =>
    sequence [keyword .define, rule identifier, Form.grouped (optional (rule parameters)), body]
  | callStatement =>
    let call := fun name => sequence [rule name, Form.grouped (optional (rule arguments))]
    match x with
    | .full => choice [call ownIdentifier, call identifier]
    | .plain => call identifier
  | parameters => separated (rule identifier)
  | arguments => separated (rule expression)
  | assignment => sequence [rule identifier, mark .equals, rule expression]
  | expression =>
    match x with
    | .full => choice [rule logical, rule noteLiteral, rule chordLiteral]
    | .plain => choice [rule logical, rule chordLiteral]
  | logical => rule disjunction
  | disjunction => choice [extended disjunction (.keyword .or) conjunction, rule conjunction]
  | conjunction => choice [extended conjunction (.keyword .and) comparison, rule comparison]
  | comparison =>
    choice [extended sum (.mark (.relation .eq)) sum, extended sum (.mark (.relation .ne)) sum,
      extended sum (.mark (.relation .lt)) sum, extended sum (.mark (.relation .gt)) sum,
      extended sum (.mark (.relation .le)) sum, extended sum (.mark (.relation .ge)) sum,
      sequence [keyword .not, rule primary], rule primary]
  | primary => choice [Form.grouped (rule logical), rule sum]
  | sum =>
    choice [extended sum (.mark (.operator .add)) term, extended sum (.mark (.operator .sub)) term,
      rule term]
  | term =>
    choice [extended term (.mark (.operator .mul)) factor,
      extended term (.mark (.operator .div)) factor, rule factor]
  | factor => choice [Form.grouped (rule sum), rule atom]
  | atom => choice [rule number, rule identifier]
  | noteLiteral => word .note
  | chordLiteral => bracketed (rule noteList)
  | noteList => separated (rule noteLiteral)
  | duration => rule number
  | identifier => word .name
  | ownIdentifier => symbol .ownName
  | number => word .numeral

/-- What a form derives; `Is` says which words belong to a symbol. -/
inductive Derives {α : Type} (x : Extent) (Is : Symbol → α → Prop) : Form → List α → Prop where
  | symbol {s a} (h : Is s a) : Derives x Is (.symbol s) [a]
  | rule {r as} (h : Derives x Is (r.form x) as) : Derives x Is (.rule r) as
  | empty : Derives x Is .empty []
  | seq {f g as bs} (hf : Derives x Is f as) (hg : Derives x Is g bs) :
      Derives x Is (.seq f g) (as ++ bs)
  | left {f g as} (h : Derives x Is f as) : Derives x Is (.either f g) as
  | right {f g as} (h : Derives x Is g as) : Derives x Is (.either f g) as
  | manyNil {f} : Derives x Is (.many f) []
  | manyCons {f as bs} (h : Derives x Is f as) (hs : Derives x Is (.many f) bs) :
      Derives x Is (.many f) (as ++ bs)

def Scan.isOwnName (w : List Char) : Bool :=
  isName w &&
    match w with
    | 'r' :: 'e' :: 'f' :: c :: _ => c.isUpper
    | _ => false

/-- The words of a text that belong to a symbol. -/
def Symbol.Spelt (x : Extent) : Symbol → List Char → Prop
  | word .name, w => Scan.isName w = true ∧
      match x with
      | .full => True
      | .plain => ∀ k : Keyword, w ≠ k.text.toList
  | word .numeral, w => ∃ n : Numeral, n.isWritten = true ∧ w = n.chars
  | word .note, w => Scan.isNote w = true
  | word (.keyword k), w => w = k.text.toList
  | word (.mark m), w => w = m.text.toList
  | ownName, w => Scan.isOwnName w = true

/-- The words that belong to a symbol once it is known what they are. -/
def Symbol.Is : Symbol → Lexeme → Prop
  | word t, l => l.terminal = t
  | ownName, l => ∃ y, l = .name y ∧ Scan.isOwnName y.toList = true

namespace Derives

variable {α β : Type} {x : Extent} {Is : Symbol → α → Prop} {f : Form} {fs : List Form}
  {as bs : List α}

theorem choice (h : Derives x Is f as) (hf : f ∈ fs) : Derives x Is (.choice fs) as := by
  induction fs with
  | nil => cases hf
  | cons g fs ih =>
      rcases List.mem_cons.1 hf with rfl | hf
      · exact .left h
      · exact .right (ih hf)

/-- A derivation does not hang on what the words are, only on their symbols. -/
theorem map {Is' : Symbol → β → Prop} {g : α → β} (h : Derives x Is f as)
    (hg : ∀ a ∈ as, ∀ s, Is s a → Is' s (g a)) : Derives x Is' f (as.map g) := by
  induction h with
  | symbol h => exact .symbol (hg _ (by simp) _ h)
  | rule _ ih => exact .rule (ih hg)
  | empty => exact .empty
  | seq _ _ ihf ihg =>
      rw [List.forall_mem_append] at hg
      rw [List.map_append]
      exact .seq (ihf hg.1) (ihg hg.2)
  | left _ ih => exact .left (ih hg)
  | right _ ih => exact .right (ih hg)
  | manyNil => exact .manyNil
  | manyCons _ _ ih ihs =>
      rw [List.forall_mem_append] at hg
      rw [List.map_append]
      exact .manyCons (ih hg.1) (ihs hg.2)

/-- Words that are derived can be known for what they are. -/
theorem lift {Is' : Symbol → β → Prop} {g : α → β} {bs : List β} {P : α → Prop}
    (h : Derives x Is' f bs) (hg : ∀ s b, Is' s b → ∃ a, Is s a ∧ g a = b ∧ P a) :
    ∃ as, Derives x Is f as ∧ as.map g = bs ∧ ∀ a ∈ as, P a := by
  induction h with
  | symbol h =>
      obtain ⟨a, ha, rfl, hP⟩ := hg _ _ h
      exact ⟨[a], .symbol ha, rfl, by simpa using hP⟩
  | rule _ ih =>
      obtain ⟨as, has, hmap, hP⟩ := ih
      exact ⟨as, .rule has, hmap, hP⟩
  | empty => exact ⟨[], .empty, rfl, by simp⟩
  | seq _ _ ihf ihg =>
      obtain ⟨as, has, rfl, hP⟩ := ihf
      obtain ⟨cs, hcs, rfl, hQ⟩ := ihg
      exact ⟨as ++ cs, .seq has hcs, List.map_append, List.forall_mem_append.2 ⟨hP, hQ⟩⟩
  | left _ ih =>
      obtain ⟨as, has, hmap, hP⟩ := ih
      exact ⟨as, .left has, hmap, hP⟩
  | right _ ih =>
      obtain ⟨as, has, hmap, hP⟩ := ih
      exact ⟨as, .right has, hmap, hP⟩
  | manyNil => exact ⟨[], .manyNil, rfl, by simp⟩
  | manyCons _ _ ih ihs =>
      obtain ⟨as, has, rfl, hP⟩ := ih
      obtain ⟨cs, hcs, rfl, hQ⟩ := ihs
      exact ⟨as ++ cs, .manyCons has hcs, List.map_append, List.forall_mem_append.2 ⟨hP, hQ⟩⟩

end Derives

/-- What the words of a part derive from. -/
def Phrase.form : Phrase → Form
  | factor _ => .rule .factor
  | term _ => .rule .term
  | sum _ => .rule .sum
  | primary _ => .rule .primary
  | comparison _ => .rule .comparison
  | conjunction _ => .rule .conjunction
  | disjunction _ => .rule .disjunction
  | expression _ => .rule .expression
  | furtherArguments _ => .many (.sequence [.mark .comma, .rule .expression])
  | statement _ => .rule .statement
  | body _ => .many (.rule .statement)
  | alternatives _ => .many (.rule .alternative)
  | otherwise _ => .optional (.rule .otherwise)

namespace Derives

variable {x : Extent} {f g : Form} {r : Nonterminal} {ls ms : List Lexeme}

theorem lexeme (l : Lexeme) : Derives x Symbol.Is (.word l.terminal) [l] := .symbol rfl

theorem number (n : Numeral) : Derives x Symbol.Is (.rule .number) [.numeral n] :=
  .rule (lexeme (.numeral n))

theorem identifier (y : String) : Derives x Symbol.Is (.rule .identifier) [.name y] :=
  .rule (lexeme (.name y))

theorem noteLiteral (p : String) : Derives x Symbol.Is (.rule .noteLiteral) [.note p] :=
  .rule (lexeme (.note p))

theorem grouped (h : Derives x Symbol.Is f ls) :
    Derives x Symbol.Is (.grouped f) (TuneScript.grouped ls) :=
  .seq (lexeme (.mark .openParen)) (.seq h (lexeme (.mark .closeParen)))

theorem body (h : Derives x Symbol.Is (.many (.rule .statement)) ls) :
    Derives x Symbol.Is .body (braced ls) :=
  .seq (lexeme (.mark .openBrace)) (.seq h (lexeme (.mark .closeBrace)))

/-- A statement other than an expression. -/
theorem statement (hr : r ∈ Nonterminal.statements) (h : Derives x Symbol.Is (r.form x) ls) :
    Derives x Symbol.Is (.rule .statement) ls :=
  .rule (.choice (.rule h) (List.mem_append_left _ (List.mem_map_of_mem hr)))

theorem extended {left right : Nonterminal} (hl : Derives x Symbol.Is (.rule left) ls) (l : Lexeme)
    (hr : Derives x Symbol.Is (.rule right) ms) :
    Derives x Symbol.Is (.extended left l.terminal right) (ls ++ l :: ms) :=
  .seq hl (.seq (lexeme l) hr)

theorem separated {α : Type} {word : α → Lexeme} (h : ∀ a, Derives x Symbol.Is f [word a]) (a : α)
    (as : List α) : Derives x Symbol.Is (.separated f) (word a :: afterCommas word as) := by
  have hmany : Derives x Symbol.Is (.many (.sequence [.mark .comma, f])) (afterCommas word as) := by
    induction as with
    | nil => exact .manyNil
    | cons b bs ih => exact .manyCons (.seq (lexeme (.mark .comma)) (h b)) ih
  exact .seq (h a) hmany

theorem notes (notes : Notes) :
    Derives x Symbol.Is (.bracketed (.rule .noteList)) notes.words := by
  have hlist : Derives x Symbol.Is (.rule .noteList)
      (.note notes.first :: afterCommas .note notes.others) :=
    .rule (separated noteLiteral notes.first notes.others)
  exact .seq (lexeme (.mark .openBracket)) (.seq hlist (lexeme (.mark .closeBracket)))

theorem pitch (pitch : Pitch) : Derives x Symbol.Is (.rule .noteValue) pitch.words := by
  cases pitch with
  | single note => exact .rule (.left (noteLiteral note))
  | several ns => exact .rule (.right (.left (.rule (notes ns))))

theorem duration (duration : Option Numeral) :
    Derives x Symbol.Is (.optional (.sequence [.mark .comma, .rule .duration]))
      (durationWords duration) := by
  cases duration with
  | none => exact .left .empty
  | some n => exact .right (.seq (lexeme (.mark .comma)) (.rule (number n)))

theorem parameters (xs : List String) :
    Derives x Symbol.Is (.optional (.rule .parameters)) (parameterWords xs) := by
  cases xs with
  | nil => exact .left .empty
  | cons y ys => exact .right (.rule (separated identifier y ys))

end Derives

/-- The words that spell a part derive from its rule. -/
theorem Spells.derives {p : Phrase} {ls : List Lexeme} (h : Spells p ls) :
    Derives .full Symbol.Is p.form ls := by
  induction h with
  | number n => exact .rule (.right (.left (.rule (.left (.number n)))))
  | name y => exact .rule (.right (.left (.rule (.right (.left (.identifier y))))))
  | arithGroup _ ih => exact .rule (.left (.grouped ih))
  | ofFactor _ ih => exact .rule (.right (.right (.left ih)))
  | @product o _ _ _ _ ho _ _ iha ihb =>
      refine .rule (.choice (.extended iha (.mark (.operator o)) ihb) ?_)
      cases o <;> simp [Operator.isProduct, Lexeme.terminal] at ho ⊢
  | ofTerm _ ih => exact .rule (.right (.right (.left ih)))
  | @sum o _ _ _ _ ho _ _ iha ihb =>
      refine .rule (.choice (.extended iha (.mark (.operator o)) ihb) ?_)
      cases o <;> simp [Operator.isProduct, Lexeme.terminal] at ho ⊢
  | logicGroup _ ih => exact .rule (.left (.grouped (.rule ih)))
  | ofSum _ ih => exact .rule (.right (.left ih))
  | @compare r _ _ _ _ _ _ iha ihb =>
      refine .rule (.choice (.extended iha (.mark (.relation r)) ihb) ?_)
      cases r <;> simp [Lexeme.terminal]
  | negation _ ih =>
      have hnot : Derives .full Symbol.Is (.keyword .not) [.keyword .not] := .lexeme (.keyword .not)
      exact .rule (.choice (f := .sequence [_, _]) (.seq hnot ih) (by simp))
  | ofPrimary _ ih => exact .rule (.choice ih (by simp [Phrase.form]))
  | conjunction _ _ ihe ihf => exact .rule (.left (.extended ihe (.keyword .and) ihf))
  | ofComparison _ ih => exact .rule (.right (.left ih))
  | disjunction _ _ ihe ihf => exact .rule (.left (.extended ihe (.keyword .or) ihf))
  | ofConjunction _ ih => exact .rule (.right (.left ih))
  | logic _ ih => exact .rule (.left (.rule ih))
  | chordLiteral notes => exact .rule (.right (.right (.left (.rule (.notes notes)))))
  | noArgument => exact .manyNil
  | argument _ _ ihe ihs => exact .manyCons (.seq (.lexeme (.mark .comma)) ihe) ihs
  | note pitch duration =>
      exact .statement (r := .noteStatement) (by decide)
        (.seq (.lexeme (.keyword .note)) (.seq (.pitch pitch) (.duration duration)))
  | chord notes duration =>
      have hnotes : Derives .full Symbol.Is (.rule .chordLiteral) notes.words :=
        .rule (.notes notes)
      exact .statement (r := .chordStatement) (by decide)
        (.seq (.lexeme (.keyword .chord)) (.seq hnotes (.duration duration)))
  | rest _ ih =>
      exact .statement (r := .restStatement) (by decide)
        (.seq (.lexeme (.keyword .rest)) ih)
  | tempo n =>
      exact .statement (r := .tempoStatement) (by decide)
        (.seq (.lexeme (.keyword .tempo)) (.number n))
  | volume n =>
      exact .statement (r := .volumeStatement) (by decide)
        (.seq (.lexeme (.keyword .volume)) (.number n))
  | instrument y =>
      exact .statement (r := .instrumentStatement) (by decide)
        (.seq (.lexeme (.keyword .refinst))
          (.seq (.lexeme (.mark .equals)) (.lexeme (.name y))))
  | @loop n _ _ _ ih =>
      exact .statement (r := .loopStatement) (by decide)
        (.seq (.lexeme (.keyword .loop)) (.seq (.number n) (.body ih)))
  | whileLoop _ _ ihe ihs =>
      exact .statement (r := .whileStatement) (by decide)
        (.seq (.lexeme (.keyword .whileLoop)) (.seq (.grouped (.rule ihe)) (.body ihs)))
  | @forLoop y a b _ _ _ ih =>
      have hrange : Derives .full Symbol.Is (.rule .range) [.numeral a, .mark .colon, .numeral b] :=
        .rule (.seq (.number a) (.seq (.lexeme (.mark .colon)) (.number b)))
      exact .statement (r := .forStatement) (by decide)
        (.seq (.lexeme (.keyword .forLoop))
          (.seq (.grouped (.seq (.identifier y) (.seq (.lexeme (.mark .comma)) hrange)))
            (.body ih)))
  | branch _ _ _ _ ihe ihs ihb iho =>
      rw [List.append_assoc, List.append_assoc]
      exact .statement (r := .branchStatement) (by decide)
        (.seq (.lexeme (.keyword .branch))
          (.seq (.grouped (.rule ihe)) (.seq (.body ihs) (.seq ihb iho))))
  | @define f xs _ _ _ ih =>
      exact .statement (r := .defineStatement) (by decide)
        (.seq (.lexeme (.keyword .define))
          (.seq (.identifier f) (.seq (.grouped (.parameters xs)) (.body ih))))
  -- a name of the language's own is a name like any other, so one alternative does for all
  | callNone f =>
      exact .statement (r := .callStatement) (by decide)
        (.right (.left (.seq (.identifier f) (.grouped (.left .empty)))))
  | @call f _ _ _ _ _ _ ihe ihs =>
      exact .statement (r := .callStatement) (by decide)
        (.right (.left (.seq (.identifier f) (.grouped (.right (.rule (.seq ihe ihs)))))))
  | @assign y _ _ _ ih =>
      exact .statement (r := .assignment) (by decide)
        (.seq (.identifier y) (.seq (.lexeme (.mark .equals)) ih))
  | eval _ ih =>
      have hseq : Derives .full Symbol.Is (.sequence [.rule .expression, .mark .semicolon]) _ :=
        .seq ih (.lexeme (.mark .semicolon))
      exact .rule (.choice hseq (List.mem_append_right _ List.mem_cons_self))
  | noStatement | noAlternative => exact .manyNil
  | statement _ _ ih ihs => exact .manyCons ih ihs
  | alternative _ _ _ ihe ihs ihb =>
      exact .manyCons (.rule (.seq (.lexeme (.keyword .alternative))
        (.seq (.grouped (.rule ihe)) (.body ihs)))) ihb
  | noOtherwise => exact .left .empty
  | otherwise _ ih =>
      exact .right (.rule (.seq (.lexeme (.keyword .otherwise)) (.body ih)))

/-- What words must be to stand where a symbol stands. -/
def Symbol.Written : Symbol → List Lexeme → Prop
  | word .name, ls | ownName, ls => ∃ y, ls = [.name y]
  | word .numeral, ls => ∃ n, ls = [.numeral n]
  | word .note, ls => ∃ p, ls = [.note p]
  | word (.keyword k), ls => ls = [.keyword k]
  | word (.mark m), ls => ls = [.mark m]

theorem Symbol.Is.written {s : Symbol} {l : Lexeme} (h : s.Is l) : s.Written [l] := by
  cases s with
  | ownName =>
      obtain ⟨y, rfl, -⟩ := h
      exact ⟨y, rfl⟩
  | word t =>
      cases h
      cases l with
      | name y => exact ⟨y, rfl⟩
      | numeral n => exact ⟨n, rfl⟩
      | note p => exact ⟨p, rfl⟩
      | keyword k => rfl
      | mark m => rfl

/-- What words must be to stand where a rule stands: they spell some part of that kind. -/
def Nonterminal.Written : Nonterminal → List Lexeme → Prop
  | start, ls => ∃ ss, Spells (.body ss) ls
  | statement, ls | noteStatement, ls | chordStatement, ls | restStatement, ls
  | tempoStatement, ls | volumeStatement, ls | instrumentStatement, ls | loopStatement, ls
  | whileStatement, ls | forStatement, ls | branchStatement, ls | defineStatement, ls
  | callStatement, ls | assignment, ls => ∃ s, Spells (.statement s) ls
  | noteValue, ls => ∃ pitch : Pitch, ls = pitch.words
  | noteArray, ls | chordLiteral, ls => ∃ notes : Notes, ls = notes.words
  | noteList, ls => ∃ p ps, ls = .note p :: afterCommas .note ps
  | range, ls => ∃ a b, ls = [.numeral a, .mark .colon, .numeral b]
  | alternative, ls => ∃ e ss, Spells (.alternatives [(e, ss)]) ls
  | otherwise, ls => ∃ ss, Spells (.otherwise (some ss)) ls
  | parameters, ls => ∃ y ys, ls = parameterWords (y :: ys)
  | arguments, ls => ∃ e es le les, ls = le ++ les ∧ Spells (.expression e) le ∧
      Spells (.furtherArguments es) les
  | expression, ls => ∃ e, Spells (.expression e) ls
  | logical, ls | disjunction, ls => ∃ e, Spells (.disjunction e) ls
  | conjunction, ls => ∃ e, Spells (.conjunction e) ls
  | comparison, ls => ∃ e, Spells (.comparison e) ls
  | primary, ls => ∃ e, Spells (.primary e) ls
  | sum, ls => ∃ a, Spells (.sum a) ls
  | term, ls => ∃ a, Spells (.term a) ls
  | factor, ls | atom, ls => ∃ a, Spells (.factor a) ls
  | noteLiteral, ls => ∃ p, ls = [.note p]
  | identifier, ls | ownIdentifier, ls => ∃ y, ls = [.name y]
  | duration, ls | number, ls => ∃ n, ls = [.numeral n]

def Form.Written : Form → List Lexeme → Prop
  | symbol s, ls => s.Written ls
  | rule r, ls => r.Written ls
  | empty, ls => ls = []
  | never, _ => False
  | seq f g, ls => ∃ us vs, ls = us ++ vs ∧ f.Written us ∧ g.Written vs
  | either f g, ls => f.Written ls ∨ g.Written ls
  | many f, ls => ∃ lss : List (List Lexeme), ls = lss.flatten ∧ ∀ us ∈ lss, f.Written us

namespace Form

variable {f : Form} {ls : List Lexeme}

theorem written_grouped (h : (grouped f).Written ls) :
    ∃ us, ls = TuneScript.grouped us ∧ f.Written us := by
  obtain ⟨_, _, rfl, rfl, us, _, rfl, hus, rfl⟩ := h
  exact ⟨us, rfl, hus⟩

theorem written_bracketed (h : (bracketed f).Written ls) :
    ∃ us, ls = .mark .openBracket :: (us ++ [.mark .closeBracket]) ∧ f.Written us := by
  obtain ⟨_, _, rfl, rfl, us, _, rfl, hus, rfl⟩ := h
  exact ⟨us, rfl, hus⟩

theorem written_choice {fs : List Form} (h : (choice fs).Written ls) : ∃ f ∈ fs, f.Written ls := by
  induction fs with
  | nil => cases h
  | cons f fs ih =>
      rcases h with h | h
      · exact ⟨f, List.mem_cons_self, h⟩
      · obtain ⟨g, hg, hw⟩ := ih h
        exact ⟨g, List.mem_cons_of_mem _ hg, hw⟩

/-- Statements one after another are a body. -/
theorem written_statements (h : (many (rule .statement)).Written ls) :
    ∃ ss, Spells (.body ss) ls := by
  obtain ⟨lss, rfl, hlss⟩ := h
  induction lss with
  | nil => exact ⟨[], .noStatement⟩
  | cons us lss ih =>
      obtain ⟨hus, hlss⟩ := List.forall_mem_cons.1 hlss
      obtain ⟨s, hs⟩ := hus
      obtain ⟨ss, hss⟩ := ih hlss
      exact ⟨s :: ss, .statement hs hss⟩

theorem written_body (h : body.Written ls) : ∃ ss us, ls = braced us ∧ Spells (.body ss) us := by
  obtain ⟨_, _, rfl, rfl, us, _, rfl, hus, rfl⟩ := h
  obtain ⟨ss, hss⟩ := written_statements hus
  exact ⟨ss, us, rfl, hss⟩

/-- Words of one kind with commas between them. -/
theorem written_separated {α : Type} {word : α → Lexeme}
    (hf : ∀ us, f.Written us → ∃ a, us = [word a]) (h : (separated f).Written ls) :
    ∃ a as, ls = word a :: afterCommas word as := by
  obtain ⟨us, _, rfl, hus, lss, rfl, hlss⟩ := h
  obtain ⟨a, rfl⟩ := hf us hus
  have hmore : ∃ as, lss.flatten = afterCommas word as := by
    induction lss with
    | nil => exact ⟨[], rfl⟩
    | cons vs lss ih =>
        obtain ⟨⟨_, ws, rfl, rfl, hws⟩, hmore⟩ := List.forall_mem_cons.1 hlss
        obtain ⟨b, rfl⟩ := hf ws hws
        obtain ⟨bs, hbs⟩ := ih hmore
        exact ⟨b :: bs, by simp [hbs, afterCommas]⟩
  obtain ⟨as, has⟩ := hmore
  exact ⟨a, as, by rw [has]; rfl⟩

theorem written_furtherArguments
    (h : (many (sequence [mark .comma, rule .expression])).Written ls) :
    ∃ es, Spells (.furtherArguments es) ls := by
  obtain ⟨lss, rfl, hlss⟩ := h
  induction lss with
  | nil => exact ⟨[], .noArgument⟩
  | cons us lss ih =>
      obtain ⟨⟨_, _, rfl, rfl, e, he⟩, hmore⟩ := List.forall_mem_cons.1 hlss
      obtain ⟨es, hes⟩ := ih hmore
      exact ⟨e :: es, .argument he hes⟩

theorem written_alternatives (h : (many (rule .alternative)).Written ls) :
    ∃ bs, Spells (.alternatives bs) ls := by
  obtain ⟨lss, rfl, hlss⟩ := h
  induction lss with
  | nil => exact ⟨[], .noAlternative⟩
  | cons us lss ih =>
      obtain ⟨⟨e, ss, hus⟩, hmore⟩ := List.forall_mem_cons.1 hlss
      obtain ⟨bs, hbs⟩ := ih hmore
      cases hus with
      | alternative he hss hnone =>
          cases hnone
          exact ⟨(e, ss) :: bs, by simpa using Spells.alternative he hss hbs⟩

theorem written_otherwise (h : (optional (rule .otherwise)).Written ls) :
    ∃ os, Spells (.otherwise os) ls := by
  rcases h with rfl | ⟨ss, hss⟩
  · exact ⟨none, .noOtherwise⟩
  · exact ⟨some ss, hss⟩

theorem written_duration (h : (optional (sequence [mark .comma, rule .duration])).Written ls) :
    ∃ d, ls = durationWords d := by
  rcases h with rfl | ⟨_, _, rfl, rfl, n, rfl⟩
  · exact ⟨none, rfl⟩
  · exact ⟨some n, rfl⟩

theorem written_parameters (h : (optional (rule .parameters)).Written ls) :
    ∃ ys, ls = parameterWords ys := by
  rcases h with rfl | ⟨y, ys, rfl⟩
  · exact ⟨[], rfl⟩
  · exact ⟨y :: ys, rfl⟩

end Form

namespace Nonterminal

variable {ls : List Lexeme}

theorem written_statement (h : (form .plain statement).Written ls) : statement.Written ls := by
  obtain ⟨f, hf, h⟩ := Form.written_choice h
  rcases List.mem_append.1 hf with hf | hf
  · obtain ⟨r, hr, rfl⟩ := List.mem_map.1 hf
    simp only [statements, List.mem_cons, List.not_mem_nil, or_false] at hr
    rcases hr with rfl | rfl | rfl | rfl | rfl | rfl | rfl | rfl | rfl | rfl | rfl | rfl | rfl <;>
      exact h
  · cases List.mem_singleton.1 hf
    obtain ⟨_, _, rfl, ⟨e, he⟩, rfl⟩ := h
    exact ⟨.eval e, .eval he⟩

theorem written_comparison (h : (form .plain comparison).Written ls) : comparison.Written ls := by
  have related (r : Relation) (h : (Form.extended sum (.mark (.relation r)) sum).Written ls) :
      comparison.Written ls := by
    obtain ⟨_, _, rfl, ⟨a, ha⟩, _, _, rfl, rfl, b, hb⟩ := h
    exact ⟨_, .compare ha hb⟩
  rcases h with h | h | h | h | h | h | ⟨_, _, rfl, rfl, e, he⟩ | ⟨e, he⟩ | h
  · exact related .eq h
  · exact related .ne h
  · exact related .lt h
  · exact related .gt h
  · exact related .le h
  · exact related .ge h
  · exact ⟨_, .negation he⟩
  · exact ⟨e, .ofPrimary he⟩
  · cases h

theorem written_sum (h : (form .plain sum).Written ls) : sum.Written ls := by
  rcases h with ⟨_, _, rfl, ⟨a, ha⟩, _, _, rfl, rfl, b, hb⟩ |
    ⟨_, _, rfl, ⟨a, ha⟩, _, _, rfl, rfl, b, hb⟩ | ⟨a, ha⟩ | h
  · exact ⟨_, .sum rfl ha hb⟩
  · exact ⟨_, .sum rfl ha hb⟩
  · exact ⟨a, .ofTerm ha⟩
  · cases h

theorem written_term (h : (form .plain term).Written ls) : term.Written ls := by
  rcases h with ⟨_, _, rfl, ⟨a, ha⟩, _, _, rfl, rfl, b, hb⟩ |
    ⟨_, _, rfl, ⟨a, ha⟩, _, _, rfl, rfl, b, hb⟩ | ⟨a, ha⟩ | h
  · exact ⟨_, .product rfl ha hb⟩
  · exact ⟨_, .product rfl ha hb⟩
  · exact ⟨a, .ofFactor ha⟩
  · cases h

theorem written_call (h : (form .plain callStatement).Written ls) : callStatement.Written ls := by
  obtain ⟨_, _, rfl, ⟨y, rfl⟩, h⟩ := h
  obtain ⟨us, rfl, rfl | ⟨e, es, le, les, rfl, he, hes⟩⟩ := Form.written_grouped h
  · exact ⟨_, .callNone y⟩
  · exact ⟨_, .call he hes⟩

theorem written_for (h : (form .plain forStatement).Written ls) : forStatement.Written ls := by
  obtain ⟨_, _, rfl, rfl, _, _, rfl, hgroup, hbody⟩ := h
  obtain ⟨_, rfl, _, _, rfl, ⟨y, rfl⟩, _, _, rfl, rfl, a, b, rfl⟩ := Form.written_grouped hgroup
  obtain ⟨ss, us, rfl, hss⟩ := Form.written_body hbody
  exact ⟨_, .forLoop hss⟩

theorem written_branch (h : (form .plain branchStatement).Written ls) :
    branchStatement.Written ls := by
  obtain ⟨_, _, rfl, rfl, _, _, rfl, hgroup, _, _, rfl, hbody, _, _, rfl, hmore, hlast⟩ := h
  obtain ⟨_, rfl, e, he⟩ := Form.written_grouped hgroup
  obtain ⟨ss, us, rfl, hss⟩ := Form.written_body hbody
  obtain ⟨bs, hbs⟩ := Form.written_alternatives hmore
  obtain ⟨os, hos⟩ := Form.written_otherwise hlast
  exact ⟨.branch e ss bs os, by simpa using Spells.branch he hss hbs hos⟩

/-- Words written by the right side of a rule are written by the rule. -/
theorem written_of_form {r : Nonterminal} (h : (r.form .plain).Written ls) : r.Written ls := by
  cases r with
  | start => exact Form.written_statements h
  | statement => exact written_statement h
  | noteStatement =>
      obtain ⟨_, _, rfl, rfl, _, _, rfl, ⟨pitch, rfl⟩, hduration⟩ := h
      obtain ⟨d, rfl⟩ := Form.written_duration hduration
      exact ⟨_, .note pitch d⟩
  | noteValue =>
      rcases h with ⟨p, rfl⟩ | ⟨notes, rfl⟩ | h
      · exact ⟨.single p, rfl⟩
      · exact ⟨.several notes, rfl⟩
      · cases h
  | noteArray | chordLiteral =>
      obtain ⟨_, rfl, p, ps, rfl⟩ := Form.written_bracketed h
      exact ⟨⟨p, ps⟩, rfl⟩
  | chordStatement =>
      obtain ⟨_, _, rfl, rfl, _, _, rfl, ⟨notes, rfl⟩, hduration⟩ := h
      obtain ⟨d, rfl⟩ := Form.written_duration hduration
      exact ⟨_, .chord notes d⟩
  | restStatement =>
      obtain ⟨_, _, rfl, rfl, e, he⟩ := h
      exact ⟨_, .rest he⟩
  | tempoStatement =>
      obtain ⟨_, _, rfl, rfl, n, rfl⟩ := h
      exact ⟨_, .tempo n⟩
  | volumeStatement =>
      obtain ⟨_, _, rfl, rfl, n, rfl⟩ := h
      exact ⟨_, .volume n⟩
  | instrumentStatement =>
      obtain ⟨_, _, rfl, rfl, _, _, rfl, rfl, y, rfl⟩ := h
      exact ⟨_, .instrument y⟩
  | loopStatement =>
      obtain ⟨_, _, rfl, rfl, _, _, rfl, ⟨n, rfl⟩, hbody⟩ := h
      obtain ⟨ss, us, rfl, hss⟩ := Form.written_body hbody
      exact ⟨_, .loop hss⟩
  | whileStatement =>
      obtain ⟨_, _, rfl, rfl, _, _, rfl, hgroup, hbody⟩ := h
      obtain ⟨_, rfl, e, he⟩ := Form.written_grouped hgroup
      obtain ⟨ss, us, rfl, hss⟩ := Form.written_body hbody
      exact ⟨_, .whileLoop he hss⟩
  | forStatement => exact written_for h
  | range =>
      obtain ⟨_, _, rfl, ⟨a, rfl⟩, _, _, rfl, rfl, b, rfl⟩ := h
      exact ⟨a, b, rfl⟩
  | branchStatement => exact written_branch h
  | alternative =>
      obtain ⟨_, _, rfl, rfl, _, _, rfl, hgroup, hbody⟩ := h
      obtain ⟨_, rfl, e, he⟩ := Form.written_grouped hgroup
      obtain ⟨ss, us, rfl, hss⟩ := Form.written_body hbody
      exact ⟨e, ss, by simpa using Spells.alternative he hss .noAlternative⟩
  | otherwise =>
      obtain ⟨_, _, rfl, rfl, hbody⟩ := h
      obtain ⟨ss, us, rfl, hss⟩ := Form.written_body hbody
      exact ⟨ss, .otherwise hss⟩
  | defineStatement =>
      obtain ⟨_, _, rfl, rfl, _, _, rfl, ⟨f, rfl⟩, _, _, rfl, hgroup, hbody⟩ := h
      obtain ⟨_, rfl, hparameters⟩ := Form.written_grouped hgroup
      obtain ⟨ys, rfl⟩ := Form.written_parameters hparameters
      obtain ⟨ss, us, rfl, hss⟩ := Form.written_body hbody
      exact ⟨_, .define hss⟩
  | callStatement => exact written_call h
  | parameters =>
      obtain ⟨y, ys, rfl⟩ := Form.written_separated (fun _ => id) h
      exact ⟨y, ys, rfl⟩
  | arguments =>
      obtain ⟨_, _, rfl, ⟨e, he⟩, hmore⟩ := h
      obtain ⟨es, hes⟩ := Form.written_furtherArguments hmore
      exact ⟨e, es, _, _, rfl, he, hes⟩
  | assignment =>
      obtain ⟨_, _, rfl, ⟨y, rfl⟩, _, _, rfl, rfl, e, he⟩ := h
      exact ⟨_, .assign he⟩
  | expression =>
      rcases h with ⟨e, he⟩ | ⟨notes, rfl⟩ | h
      · exact ⟨_, .logic he⟩
      · exact ⟨_, .chordLiteral notes⟩
      · cases h
  | logical | duration | identifier | ownIdentifier | number | noteLiteral => exact h
  | atom =>
      rcases h with ⟨n, rfl⟩ | ⟨y, rfl⟩ | h
      · exact ⟨_, .number n⟩
      · exact ⟨_, .name y⟩
      · cases h
  | disjunction =>
      rcases h with ⟨_, _, rfl, ⟨e, he⟩, _, _, rfl, rfl, f, hf⟩ | ⟨e, he⟩ | h
      · exact ⟨_, .disjunction he hf⟩
      · exact ⟨e, .ofConjunction he⟩
      · cases h
  | conjunction =>
      rcases h with ⟨_, _, rfl, ⟨e, he⟩, _, _, rfl, rfl, f, hf⟩ | ⟨e, he⟩ | h
      · exact ⟨_, .conjunction he hf⟩
      · exact ⟨e, .ofComparison he⟩
      · cases h
  | comparison => exact written_comparison h
  | primary =>
      rcases h with h | ⟨a, ha⟩ | h
      · obtain ⟨_, rfl, e, he⟩ := Form.written_grouped h
        exact ⟨e, .logicGroup he⟩
      · exact ⟨_, .ofSum ha⟩
      · cases h
  | sum => exact written_sum h
  | term => exact written_term h
  | factor =>
      rcases h with h | ⟨a, ha⟩ | h
      · obtain ⟨_, rfl, a, ha⟩ := Form.written_grouped h
        exact ⟨a, .arithGroup ha⟩
      · exact ⟨a, ha⟩
      · cases h
  | noteList => exact Form.written_separated (fun _ => id) h

end Nonterminal

theorem Derives.written {f : Form} {ls : List Lexeme} (h : Derives .plain Symbol.Is f ls) :
    f.Written ls := by
  induction h with
  | symbol h => exact h.written
  | rule _ ih => exact Nonterminal.written_of_form ih
  | empty => rfl
  | seq _ _ ihf ihg => exact ⟨_, _, rfl, ihf, ihg⟩
  | left _ ih => exact .inl ih
  | right _ ih => exact .inr ih
  | manyNil => exact ⟨[], rfl, by simp⟩
  | manyCons _ _ ih ihs =>
      obtain ⟨lss, rfl, hlss⟩ := ihs
      exact ⟨_ :: lss, rfl, List.forall_mem_cons.2 ⟨ih, hlss⟩⟩

/-- Words of the right form belong to the symbol that their class derives from. -/
theorem Symbol.Is.spelt {s : Symbol} {l : Lexeme} (h : s.Is l) (hl : l.isFormed = true) :
    s.Spelt .full l.chars := by
  cases s with
  | ownName =>
      obtain ⟨y, rfl, hy⟩ := h
      exact hy
  | word t =>
      cases h
      cases l with
      | name y => exact ⟨hl, trivial⟩
      | numeral n => exact ⟨n, hl, rfl⟩
      | note p => exact hl
      | keyword k | mark m => rfl

/-- The words of the plain rules are of the right form, and their names are no keywords. -/
theorem Symbol.Spelt.lexeme {s : Symbol} {w : List Char} (h : s.Spelt .plain w) :
    ∃ l : Lexeme, s.Is l ∧ l.chars = w ∧
      (l.isFormed = true ∧ ∀ y, l = .name y → Keyword.ofText? y = none) := by
  have name (hw : ∀ k : Keyword, w ≠ k.text.toList) :
      ∀ y, Lexeme.name (String.ofList w) = .name y → Keyword.ofText? y = none := by
    rintro y ⟨rfl⟩
    rw [Option.eq_none_iff_forall_ne_some]
    intro k hk
    refine hw k ?_
    rw [Scan.text_of_ofText? hk, String.toList_ofList]
  cases s with
  | ownName =>
      have hown : Scan.isOwnName w = true := h
      have hformed : Scan.isName w = true := (Bool.and_eq_true_iff.1 hown).1
      refine ⟨.name (String.ofList w), ⟨_, rfl, by simpa using hown⟩, by simp [Lexeme.chars],
        by simpa [Lexeme.isFormed] using hformed, name ?_⟩
      rintro k rfl
      revert hown
      cases k <;> decide
  | word t =>
      cases t with
      | name =>
          exact ⟨.name (String.ofList w), rfl, by simp [Lexeme.chars],
            by simpa [Lexeme.isFormed] using h.1, name h.2⟩
      | numeral =>
          obtain ⟨n, hn, rfl⟩ := h
          exact ⟨.numeral n, rfl, rfl, hn, by simp⟩
      | note =>
          have hnote : Scan.isNote w = true := h
          exact ⟨.note (String.ofList w), rfl, by simp [Lexeme.chars],
            by simpa [Lexeme.isFormed] using hnote, by simp⟩
      | keyword k => exact ⟨.keyword k, rfl, h.symm, rfl, by simp⟩
      | mark m => exact ⟨.mark m, rfl, h.symm, rfl, by simp⟩

theorem Numeral.eq_of_chars_eq {n m : Numeral} (hn : n.isWritten = true) (hm : m.isWritten = true)
    (h : n.chars = m.chars) : n = m := by
  have hread := Scan.numeral_parted hn Scan.parted_nil
  rw [h, Scan.numeral_parted hm Scan.parted_nil] at hread
  exact (Prod.mk.inj hread).1.symm

/-- A word that is spelt like a numeral is that numeral. -/
theorem Lexeme.eq_numeral {n : Numeral} {k : Lexeme} (hn : n.isWritten = true)
    (hk : k.isFormed = true) (h : n.chars = k.chars) : k = .numeral n := by
  obtain ⟨c, cs, hchars, hc⟩ := Scan.isWritten_cons hn
  have hstart := Scan.not_isNameStart_of_isDigit hc
  have notName {w : List Char} (hw : Scan.isName w = true) (hcs : c :: cs = w) : False := by
    subst hcs
    simp [Scan.isName, hstart] at hw
  cases k with
  | name y => exact (notName hk (hchars ▸ h)).elim
  | numeral m => rw [Numeral.eq_of_chars_eq hn hk h]
  | note p =>
      obtain ⟨d, ds, hp, hd⟩ := Scan.isNote_cons hk
      have hcd : c :: cs = d :: ds := by rw [← hchars, ← hp, h]; rfl
      cases hcd
      rw [Scan.isNameStart_of_isPitch hd] at hstart
      cases hstart
  | keyword j => exact (notName (Scan.isName_text j) (hchars ▸ h)).elim
  | mark m =>
      obtain ⟨d, ds, hm, hd, -⟩ := Scan.text_cons m
      have hcd : c :: cs = d :: ds := by rw [← hchars, ← hm, h]; rfl
      cases hcd
      rw [Scan.isNamePart_of_isDigit hc] at hd
      cases hd

theorem Lexeme.isProper_of_standsApart {l k : Lexeme} (hl : l.isFormed = true)
    (hname : ∀ y, l = .name y → Keyword.ofText? y = none) (hk : k.StandsApart)
    (h : l.chars = k.chars) : l.isProper = true := by
  cases l with
  | name y => simpa [isProper, hname y rfl] using hl
  | numeral n =>
      cases Lexeme.eq_numeral hl hk.isFormed h
      simp [isProper, isFormed, hk.1, hk.2]
  | note p => simpa [isProper] using hl
  | keyword j | mark m => rfl

/-- Of the texts of words with one blank between them, those that are read as programs lie
between the ones that the plain rules derive and the ones that the full rules derive. -/
theorem Reader.accepted_between_rules {ls : List Lexeme} (hls : ∀ l ∈ ls, l.StandsApart) :
    let words := ls.map Lexeme.chars
    let text := String.ofList ([' '].intercalate words)
    ((∃ p, read .full text = .ok p) →
        Derives .full (Symbol.Spelt .full) (.rule .start) words) ∧
      (Derives .plain (Symbol.Spelt .plain) (.rule .start) words →
        ∃ p, read .full text = .ok p) := by
  intro words text
  have hspaced : Spaced words text.toList := by
    rw [String.toList_ofList]
    exact Spaced.intercalate_words (by decide) words
  constructor
  · rintro ⟨p, hp⟩
    obtain ⟨ks, hks, hformed, hspells⟩ := spells_of_read hls hspaced hp
    have hderives : Derives .full (Symbol.Spelt .full) (.rule .start) (ks.map Lexeme.chars) :=
      .rule (hspells.derives.map fun k hk s hs => hs.spelt (hformed k hk))
    rwa [hks] at hderives
  · intro h
    obtain ⟨ks, hderives, hks, hplain⟩ := h.lift fun s w hw => Symbol.Spelt.lexeme hw
    obtain ⟨p, hspells⟩ := hderives.written
    refine ⟨p, read_of_spells hspells (fun k hk => ?_) (by rwa [hks])⟩
    have hmem : k.chars ∈ ls.map Lexeme.chars := by
      rw [← show ks.map Lexeme.chars = ls.map Lexeme.chars from hks]
      exact List.mem_map_of_mem hk
    obtain ⟨l, hl, hchars⟩ := List.mem_map.1 hmem
    exact Lexeme.isProper_of_standsApart (hplain k hk).1 (hplain k hk).2 (hls l hl) hchars.symm

/-- A name may be spelt like a note, also where it is read as a name. -/
theorem Reader.accepted_between_rules_loop :
    let ls : List Lexeme := [.keyword .loop, .numeral ⟨['2'], none⟩, .mark .openBrace,
      .keyword .note, .note "C#4", .mark .comma, .numeral ⟨['1'], some ['5']⟩, .mark .closeBrace,
      .name "C4", .mark .equals, .name "C4"]
    (∀ l ∈ ls, l.StandsApart) ∧
      Derives .full (Symbol.Spelt .full) (.rule .start) (ls.map Lexeme.chars) := by
  intro ls
  have hname : (Lexeme.name "C4").StandsApart :=
    ⟨by decide, fun p hp => Scan.eq_of_isNote_prefix hp (by decide)⟩
  have hls : ∀ l ∈ ls, l.StandsApart := by
    have hkeyword (k : Keyword) : (Lexeme.keyword k).StandsApart := trivial
    have hmark (m : Mark) : (Lexeme.mark m).StandsApart := trivial
    have htwo : (Lexeme.numeral ⟨['2'], none⟩).StandsApart := ⟨by decide, by decide⟩
    have hhalf : (Lexeme.numeral ⟨['1'], some ['5']⟩).StandsApart := ⟨by decide, by decide⟩
    have hnote : Scan.isNote "C#4".toList = true := by decide
    have hpitch : (Lexeme.note "C#4").StandsApart := hnote
    simp [ls, hkeyword, hmark, hname, htwo, hhalf, hpitch]
  have hspells : Spells (.body [
      .loop ⟨['2'], none⟩ [.note (.single "C#4") (some ⟨['1'], some ['5']⟩)],
      .assign "C4" (.logic (.arith (.name "C4")))]) ls := by
    have hloop : Spells (.body [.note (.single "C#4") (some ⟨['1'], some ['5']⟩)]) _ :=
      .single (.note _ _)
    have hassign : Spells (.expression (.logic (.arith (.name "C4")))) [.name "C4"] :=
      .logic (.ofConjunction (.ofComparison (.ofPrimary (.ofSum (.ofTerm (.ofFactor (.name _)))))))
    exact .statement (.loop hloop) (.single (.assign hassign))
  refine ⟨hls, (accepted_between_rules hls).1 ⟨_, read_of_spells hspells (by decide) ?_⟩⟩
  rw [String.toList_ofList]
  exact Spaced.intercalate_words (by decide) _

end TuneScript
