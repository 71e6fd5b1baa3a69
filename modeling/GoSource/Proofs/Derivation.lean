/-
The language as a relation between tokens and trees.

`Derives p ts a` says that the tokens `ts`, all of them and in this order,
may be read as a phrase `p` whose tree is `a`. The parser is one way to
find such a tree; the relation says what it means to have found it, and it
is smaller: no state, no lookahead, no undecided beginnings of lists.
What is derivable may be ambiguous where the parser is not (the operands
of two operators can be grouped in two ways); what the parser returns is
always derivable. A fact about every tree the parser returns is therefore
shown by induction over derivations, with one case for each way to form a
phrase.

# Spans and numbers

A derivation fixes the span of every node, from the tokens. The numbers of
nodes are left open, and so are the comments of declarations: no token
tells them.

# Reading twice

Where something is read as an expression first and turns out to be a type,
a label or a list of names, the phrase consists of the derivation of the
expression and of what is made of it (`NamesType`, `Grammar.asLabel`,
`AreNames`). The expression itself is no part of the tree then.
-/
import Mathlib.Data.List.Forall2
import GoSource.Grammar.Declaration
import GoSource.Proofs.Parsing.Passage

namespace GoSource

-- =========================================================== conditions

/-- Names and literals: the tokens that a tree keeps with their text.
Neither what separates items nor a mark is one of them. -/
def Token.Kind.isLeaf (k : Token.Kind) : Bool :=
  k = .ident || Literal.isKind k

/-- The type that an operand before the brace of a composite literal
names. -/
inductive NamesType : Expr → TypeExpr → Prop where
  | type : NamesType ⟨i, sp, .type t⟩ t
  | plain : NamesType ⟨i, sp, .ident n⟩ ⟨j, sp, .name none n⟩
  | qualified :
      NamesType ⟨i, sp, .selector ⟨k, sp', .ident pkg⟩ n⟩ ⟨j, sp, .name (some pkg) n⟩

/-- Expressions that are names, and those names. -/
def AreNames (xs : List Expr) (names : List Ident) : Prop :=
  xs.map (·.form) = names.map .ident

/-- Types that can stand where an operand does without parentheses. -/
def TypeForm.isOperand : TypeForm → Bool
  | .name _ _ | .pointer _ => false
  | _ => true

/-- The expression that a simple statement ends with. -/
def StmtForm.last : StmtForm → Option Expr
  | .expr x | .range _ _ x | .send _ x => some x
  | .assign _ _ _ xs | .shortVar _ _ xs => xs.getLast?
  | _ => none

/-- The expression that stands before the body of a loop. -/
def ForHeader.last : ForHeader → Option Expr
  | .cond x => some x
  | .range s | .clause _ _ (some s) => s.form.last
  | _ => none

/-- A brace after the expression does not make it a composite literal. -/
def EndsHeader (x : Option Expr) : Prop :=
  ∀ y ∈ x, Grammar.opensComposite true y = false

/-- A token that may be missing. -/
def Possibly (k : Token.Kind) (ts : List Token) : Prop :=
  ts = [] ∨ ∃ t, t.kind = k ∧ ts = [t]

/-- Constants of a group are numbered by their places in it. -/
def Numbered (ds : List Decl) : Prop :=
  ∀ i (d : Decl) spec, ds[i]? = some d → d.form = .const spec → spec.iota = i

/-- The keyword of a group. -/
def GroupKind.keyword : GroupKind → Token.Kind
  | const => .kwConst
  | var => .kwVar
  | type => .kwType

-- ============================================================== phrases

/-- What tokens can be read as. -/
inductive Phrase where
  | name
  | literal
  | mark (k : Token.Kind)
  | optional (p : Phrase)
  /-- Items, each with a separator after it. -/
  | terminated (sep : Token.Kind) (p : Phrase)
  /-- One item or more, with separators between them. -/
  | separated (sep : Token.Kind) (p : Phrase)
  /-- Items with separators, the last of which may be missing. -/
  | listed (sep : Token.Kind) (p : Phrase)
  | expr (m : Mode)
  | arguments
  /-- The key or the value of an element. -/
  | part
  | element
  | typeName
  | type
  | arrayLength
  | param (named : Bool)
  | params
  | parameters
  | signature
  | result
  | field
  | embedded
  | tag
  | interfaceElement
  | simple (sm : SimpleMode) (m : Mode)
  | stmt (m : Mode)
  /-- Statements, each ended by a semicolon. -/
  | endedStmts (m : Mode)
  | stmts (m : Mode)
  | block
  | ifHeader (m : Mode)
  | ifStmt (m : Mode)
  | otherwise (m : Mode)
  | init (m : Mode)
  | post (m : Mode)
  | forHeader (m : Mode)
  | forStmt (m : Mode)
  | values (m : Mode)
  | spec (k : GroupKind) (m : Mode)
  | specDecl (k : GroupKind) (m : Mode)
  | group (k : GroupKind) (m : Mode)
  | function
  | importName
  | importPath
  | importSpec
  | importDecl
  /-- What may stand at top level: imports, other declarations, or
  both. -/
  | topLevel (imports others : Bool)
  | decls (imports others : Bool)
  | file

/-- What a phrase is read as. -/
abbrev Phrase.Result : Phrase → Type
  | name => Ident
  | literal | tag => Lit
  | mark _ => Span
  | optional p => Option p.Result
  | terminated _ p | separated _ p | listed _ p => List p.Result
  | expr _ | part => Expr
  | arguments => List Expr × Option Span
  | element => Element
  | typeName | type | embedded => TypeExpr
  | arrayLength => ArrayLength
  | param _ => Param
  | params => List Param
  | parameters => ParamList
  | signature => Signature
  | result => FuncResult
  | field => Field
  | interfaceElement => InterfaceElement
  | simple _ _ => Draft
  | stmt _ | ifStmt _ | otherwise _ | init _ | post _ => Stmt
  | endedStmts _ | stmts _ => List Stmt
  | block => Block
  | ifHeader _ => Option Stmt × Expr
  | forHeader _ => ForHeader
  | forStmt _ => StmtForm
  | values _ => List Expr
  | spec _ _ => DeclForm
  | specDecl _ _ | function | importDecl => Decl
  | group _ _ | topLevel _ _ | decls _ _ => List Decl
  | importName => ImportName
  | importPath => String × Span
  | importSpec => ImportSpec
  | file => File

/-- Expressions with commas between them. -/
abbrev Phrase.exprs (m : Mode) : Phrase := .separated .comma (.expr m)

/-- Names with commas between them. -/
abbrev Phrase.names : Phrase := .separated .comma .name

-- ========================================================== derivations

/-- The tokens may be read as the phrase, with the given tree. -/
inductive Derives : (p : Phrase) → List Token → p.Result → Prop where
  -- single tokens
  | name : t.kind = .ident → Derives .name [t] ⟨t.text, t.span⟩
  | literal : Literal.decode t.kind t.text = some v → Derives .literal [t] ⟨i, t.span, v⟩
  | mark : t.kind = k → k.isLeaf = false → Derives (.mark k) [t] t.span
  -- sequences
  | absent : Derives (.optional p) [] none
  | present : Derives p ts a → Derives (.optional p) ts (some a)
  | terminatedNil : Derives (.terminated sep p) [] []
  | terminatedSnoc : Derives (.terminated sep p) ts as → Derives p us a → c.kind = sep →
      sep.isLeaf = false → Derives (.terminated sep p) (ts ++ (us ++ [c])) (as ++ [a])
  | separated : Derives (.terminated sep p) ts as → Derives p us a →
      Derives (.separated sep p) (ts ++ us) (as ++ [a])
  | listedClosed : Derives (.terminated sep p) ts as → Derives (.listed sep p) ts as
  | listedOpen : Derives (.separated sep p) ts as → Derives (.listed sep p) ts as
  -- operands
  | identExpr : Derives .name ts n → Derives (.expr m) ts ⟨i, n.span, .ident n⟩
  | literalExpr : Derives .literal ts lit → Derives (.expr m) ts ⟨i, lit.span, .literal lit⟩
  | typeExpr : Derives .type ts t → t.form.isOperand = true →
      Derives (.expr m) ts ⟨i, t.span, .type t⟩
  | parenExpr : l.kind = .lParen → Derives (.expr .inside) ts x → r.kind = .rParen →
      Derives (.expr m) (l :: (ts ++ [r])) x
  -- what is attached to an operand
  | selector : Derives (.expr m) xs x → d.kind = .dot → Derives .name ns n →
      Derives (.expr m) (xs ++ d :: ns) ⟨i, x.span.through n.span, .selector x n⟩
  | typeAssert : Derives (.expr m) xs x → d.kind = .dot → l.kind = .lParen →
      Derives .type ts t → r.kind = .rParen →
      Derives (.expr m) (xs ++ d :: l :: (ts ++ [r]))
        ⟨i, x.span.through r.span, .typeAssert x (some t) r.span⟩
  | typeGuard : m.guard = true → Derives (.expr m) xs x → d.kind = .dot → l.kind = .lParen →
      k.kind = .kwType → r.kind = .rParen →
      Derives (.expr m) (xs ++ [d, l, k, r])
        ⟨i, x.span.through r.span, .typeAssert x none r.span⟩
  | index : Derives (.expr m) xs x → l.kind = .lBrack → Derives (.expr .inside) ts y →
      r.kind = .rBrack →
      Derives (.expr m) (xs ++ l :: (ts ++ [r]))
        ⟨i, x.span.through r.span, .index x l.span y r.span⟩
  | slice : Derives (.expr m) xs x → l.kind = .lBrack →
      Derives (.optional (.expr .inside)) los low → c.kind = .colon →
      Derives (.optional (.expr .inside)) his high → r.kind = .rBrack →
      Derives (.expr m) (xs ++ l :: (los ++ c :: (his ++ [r])))
        ⟨i, x.span.through r.span, .slice x l.span low high none r.span⟩
  | fullSlice : Derives (.expr m) xs x → l.kind = .lBrack →
      Derives (.optional (.expr .inside)) los low → c.kind = .colon →
      Derives (.expr .inside) his high → c'.kind = .colon →
      Derives (.expr .inside) maxs top → r.kind = .rBrack →
      Derives (.expr m) (xs ++ l :: (los ++ c :: (his ++ c' :: (maxs ++ [r]))))
        ⟨i, x.span.through r.span, .slice x l.span low (some high) (some top) r.span⟩
  | call : Derives (.expr m) xs x → l.kind = .lParen → Derives .arguments ts (args, dots) →
      r.kind = .rParen →
      Derives (.expr m) (xs ++ l :: (ts ++ [r]))
        ⟨i, x.span.through r.span, .call x l.span args dots r.span⟩
  | composite : Derives (.expr m) xs x → Grammar.opensComposite m.inHeader x = true →
      NamesType x t → l.kind = .lBrace → Derives (.listed .comma .element) es elements →
      r.kind = .rBrace →
      Derives (.expr m) (xs ++ l :: (es ++ [r]))
        ⟨i, ⟨t.span.start, r.span.stop⟩, .composite (some t) elements l.span r.span⟩
  | plainArguments : Derives (.listed .comma (.expr .inside)) ts args →
      Derives .arguments ts (args, none)
  | spreadArguments : Derives (.separated .comma (.expr .inside)) ts args →
      d.kind = .ellipsis → Possibly .comma cs →
      Derives .arguments (ts ++ d :: cs) (args, some d.span)
  | elided : l.kind = .lBrace → Derives (.listed .comma .element) es elements →
      r.kind = .rBrace →
      Derives .part (l :: (es ++ [r]))
        ⟨i, ⟨l.span.start, r.span.stop⟩, .composite none elements l.span r.span⟩
  | part : Derives (.expr .inside) ts x → Derives .part ts x
  | value : Derives .part ts x → Derives .element ts ⟨none, x⟩
  | keyed : Derives .part ks key → c.kind = .colon → Derives .part vs value →
      Derives .element (ks ++ c :: vs) ⟨some key, value⟩
  -- operators
  | unary : UnaryOp.ofKind o.kind = some op → Derives (.expr m) xs x →
      Derives (.expr m) (o :: xs) ⟨i, o.span.through x.span, .unary op o.span x⟩
  | binary : Derives (.expr m) xs x → BinaryOp.ofKind o.kind = some op →
      Derives (.expr m) ys y →
      Derives (.expr m) (xs ++ o :: ys) ⟨i, x.span.through y.span, .binary op o.span x y⟩
  -- types
  | plainName : Derives .name ts n → Derives .typeName ts ⟨i, extent ts, .name none n⟩
  | qualifiedName : Derives .name ps pkg → d.kind = .dot → Derives .name ns n →
      Derives .typeName (ps ++ d :: ns) ⟨i, extent (ps ++ d :: ns), .name (some pkg) n⟩
  | typeName : Derives .typeName ts t → Derives .type ts t
  | parenType : l.kind = .lParen → Derives .type ts t → r.kind = .rParen →
      Derives .type (l :: (ts ++ [r])) t
  | arrayType : l.kind = .lBrack → Derives .arrayLength ns len → r.kind = .rBrack →
      Derives .type ts t →
      Derives .type (l :: (ns ++ r :: ts)) ⟨i, extent (l :: (ns ++ r :: ts)), .array len t⟩
  | sliceType : l.kind = .lBrack → r.kind = .rBrack → Derives .type ts t →
      Derives .type (l :: r :: ts) ⟨i, extent (l :: r :: ts), .slice t⟩
  | pointerType : s.kind = .star → Derives .type ts t →
      Derives .type (s :: ts) ⟨i, extent (s :: ts), .pointer t⟩
  | mapType : w.kind = .kwMap → l.kind = .lBrack → Derives .type ks key → r.kind = .rBrack →
      Derives .type ts t →
      Derives .type (w :: l :: (ks ++ r :: ts))
        ⟨i, extent (w :: l :: (ks ++ r :: ts)), .map key t⟩
  | chanType : w.kind = .kwChan → Derives .type ts t →
      Derives .type (w :: ts) ⟨i, extent (w :: ts), .chan .both t⟩
  | sendChan : w.kind = .kwChan → a.kind = .arrow → Derives .type ts t →
      Derives .type (w :: a :: ts) ⟨i, extent (w :: a :: ts), .chan .send t⟩
  | receiveChan : a.kind = .arrow → w.kind = .kwChan → Derives .type ts t →
      Derives .type (a :: w :: ts) ⟨i, extent (a :: w :: ts), .chan .receive t⟩
  | funcType : w.kind = .kwFunc → Derives .signature ts sig →
      Derives .type (w :: ts) ⟨i, extent (w :: ts), .func sig⟩
  | structType : w.kind = .kwStruct → l.kind = .lBrace →
      Derives (.listed .semi .field) ts fields → r.kind = .rBrace →
      Derives .type (w :: l :: (ts ++ [r])) ⟨i, extent (w :: l :: (ts ++ [r])), .struct fields⟩
  | interfaceType : w.kind = .kwInterface → l.kind = .lBrace →
      Derives (.listed .semi .interfaceElement) ts elements → r.kind = .rBrace →
      Derives .type (w :: l :: (ts ++ [r]))
        ⟨i, extent (w :: l :: (ts ++ [r])), .interface elements⟩
  | exprLength : Derives (.expr .inside) ts x → Derives .arrayLength ts (.expr x)
  | dotsLength : d.kind = .ellipsis → Derives .arrayLength [d] (.dots d.span)
  -- parameters
  | typeParam : Derives (.optional (.mark .ellipsis)) ds dots → Derives .type ts t →
      Derives (.param false) (ds ++ ts) ⟨i, extent (ds ++ ts), ⟨[], dots, t⟩⟩
  | namedParam : Derives .names ns names → Derives (.optional (.mark .ellipsis)) ds dots →
      Derives .type ts t →
      Derives (.param true) (ns ++ (ds ++ ts)) ⟨i, extent (ns ++ (ds ++ ts)), ⟨names, dots, t⟩⟩
  | params : Derives (.listed .comma (.param named)) ts ps →
      (∀ p ∈ ps.dropLast, p.form.dots = none) → Derives .params ts ps
  | parameters : l.kind = .lParen → Derives .params ts ps → r.kind = .rParen →
      Derives .parameters (l :: (ts ++ [r])) ⟨ps, extent (l :: (ts ++ [r]))⟩
  | signature : Derives .parameters ps params → Derives (.optional .result) rs result →
      Derives .signature (ps ++ rs) ⟨params, result, extent (ps ++ rs)⟩
  | paramsResult : Derives .parameters ts params → Derives .result ts (.params params)
  | typeResult : Derives .type ts t → Derives .result ts (.type t)
  -- fields and methods
  | namedField : Derives .names ns names → Derives .type ts t →
      Derives (.optional .tag) gs tag →
      Derives .field (ns ++ (ts ++ gs)) ⟨i, extent (ns ++ (ts ++ gs)), ⟨names, t, tag⟩⟩
  | embeddedField : Derives .embedded ts t → Derives (.optional .tag) gs tag →
      Derives .field (ts ++ gs) ⟨i, extent (ts ++ gs), ⟨[], t, tag⟩⟩
  | embeddedName : Derives .typeName ts t → Derives .embedded ts t
  | embeddedPointer : s.kind = .star → Derives .typeName ts t →
      Derives .embedded (s :: ts) ⟨i, extent (s :: ts), .pointer t⟩
  | tag : Literal.decode t.kind t.text = some (.string bytes) →
      Derives .tag [t] ⟨i, t.span, .string bytes⟩
  | methodElement : Derives .name ns n → Derives .signature ts sig →
      Derives .interfaceElement (ns ++ ts) (.method n sig)
  | embeddedElement : Derives .typeName ts t → Derives .interfaceElement ts (.embedded t)
  -- simple statements
  | rangeOnly : sm.rangeAllowed = true → w.kind = .kwRange → Derives (.expr m) xs x →
      Derives (.simple sm m) (w :: xs) ⟨.range [] false x, extent (w :: xs)⟩
  | labeled : sm.labelAllowed = true → Derives (.exprs m) ls left →
      Grammar.asLabel left = some label → c.kind = .colon → Derives (.stmt m) ts s →
      Derives (.simple sm m) (ls ++ c :: ts) ⟨.labeled label s, extent (ls ++ c :: ts)⟩
  | labeledEmpty : sm.labelAllowed = true → Derives (.exprs m) ls left →
      Grammar.asLabel left = some label → c.kind = .colon →
      Derives (.simple sm m) (ls ++ [c])
        ⟨.labeled label ⟨i, .point c.span.stop, .empty⟩, extent (ls ++ [c])⟩
  | send : Derives (.expr m) xs x → a.kind = .arrow → Derives (.expr m) ys y →
      Derives (.simple sm m) (xs ++ a :: ys) ⟨.send x y, extent (xs ++ a :: ys)⟩
  | step : Derives (.expr m) xs x → StepOp.ofKind o.kind = some op →
      Derives (.simple sm m) (xs ++ [o]) ⟨.step x op, extent (xs ++ [o])⟩
  | shortVar : Derives (.exprs m) ls left → AreNames left names → d.kind = .define →
      Derives (.exprs m) vs values →
      Derives (.simple sm m) (ls ++ d :: vs)
        ⟨.shortVar names d.span values, extent (ls ++ d :: vs)⟩
  | defineRange : sm.rangeAllowed = true → Derives (.exprs m) ls left → AreNames left names →
      d.kind = .define → w.kind = .kwRange → Derives (.expr m) xs x →
      Derives (.simple sm m) (ls ++ d :: w :: xs)
        ⟨.range left true x, extent (ls ++ d :: w :: xs)⟩
  | assign : Derives (.exprs m) ls left → AssignOp.ofKind o.kind = some op →
      Derives (.exprs m) rs right →
      Derives (.simple sm m) (ls ++ o :: rs)
        ⟨.assign left op o.span right, extent (ls ++ o :: rs)⟩
  | assignRange : sm.rangeAllowed = true → Derives (.exprs m) ls left → a.kind = .assign →
      w.kind = .kwRange → Derives (.expr m) xs x →
      Derives (.simple sm m) (ls ++ a :: w :: xs)
        ⟨.range left false x, extent (ls ++ a :: w :: xs)⟩
  | exprStmt : Derives (.expr m) xs x → Derives (.simple sm m) xs ⟨.expr x, extent xs⟩
  -- statements
  | simpleStmt : Derives (.simple .statement m) ts ⟨form, sp⟩ →
      Derives (.stmt m) ts ⟨i, sp, form⟩
  | declStmt : Derives (.group k m) ts ds → Derives (.stmt m) ts ⟨i, extent ts, .decl ds⟩
  | blockStmt : Derives .block ts b → Derives (.stmt m) ts ⟨i, extent ts, .block b⟩
  | ifStmt : Derives (.ifStmt m) ts s → Derives (.stmt m) ts s
  | forStmt : Derives (.forStmt m) ts form → Derives (.stmt m) ts ⟨i, extent ts, form⟩
  | goStmt : w.kind = .kwGo → Derives (.expr m) xs ⟨j, sp, .call f l args dots r⟩ →
      Derives (.stmt m) (w :: xs) ⟨i, extent (w :: xs), .goStmt ⟨j, sp, .call f l args dots r⟩⟩
  | deferStmt : w.kind = .kwDefer → Derives (.expr m) xs ⟨j, sp, .call f l args dots r⟩ →
      Derives (.stmt m) (w :: xs)
        ⟨i, extent (w :: xs), .deferStmt ⟨j, sp, .call f l args dots r⟩⟩
  | returnNothing : w.kind = .kwReturn →
      Derives (.stmt m) [w] ⟨i, extent [w], .returnStmt []⟩
  | returnStmt : w.kind = .kwReturn → Derives (.exprs m) xs results →
      Derives (.stmt m) (w :: xs) ⟨i, extent (w :: xs), .returnStmt results⟩
  | breakStmt : w.kind = .kwBreak → Derives (.optional .name) ns label →
      Derives (.stmt m) (w :: ns) ⟨i, extent (w :: ns), .breakStmt label⟩
  | continueStmt : w.kind = .kwContinue → Derives (.optional .name) ns label →
      Derives (.stmt m) (w :: ns) ⟨i, extent (w :: ns), .continueStmt label⟩
  | gotoStmt : w.kind = .kwGoto → Derives .name ns label →
      Derives (.stmt m) (w :: ns) ⟨i, extent (w :: ns), .gotoStmt label⟩
  | fallthroughStmt : w.kind = .kwFallthrough →
      Derives (.stmt m) [w] ⟨i, extent [w], .fallthroughStmt⟩
  -- blocks
  | noStmts : Derives (.endedStmts m) [] []
  | skipSemi : Derives (.endedStmts m) ts ss → c.kind = .semi →
      Derives (.endedStmts m) (ts ++ [c]) ss
  | endedStmt : Derives (.endedStmts m) ts ss → Derives (.stmt m) us s → c.kind = .semi →
      Derives (.endedStmts m) (ts ++ (us ++ [c])) (ss ++ [s])
  | stmtsClosed : Derives (.endedStmts m) ts ss → Derives (.stmts m) ts ss
  | stmtsOpen : Derives (.endedStmts m) ts ss → Derives (.stmt m) us s →
      Derives (.stmts m) (ts ++ us) (ss ++ [s])
  | block : l.kind = .lBrace → Derives (.stmts .inside) ts ss → r.kind = .rBrace →
      Derives .block (l :: (ts ++ [r])) ⟨ss, extent (l :: (ts ++ [r]))⟩
  -- conditionals
  | condOnly : Derives (.simple .plain m) ts ⟨.expr x, sp⟩ →
      Derives (.ifHeader m) ts (none, x)
  | initCond : Derives (.simple .plain m) ts ⟨form, sp⟩ → c.kind = .semi →
      Derives (.simple .plain m) us ⟨.expr x, sp'⟩ →
      Derives (.ifHeader m) (ts ++ c :: us) (some ⟨i, sp, form⟩, x)
  | conditional : w.kind = .kwIf → Derives (.ifHeader m.header) hs (init, x) →
      EndsHeader (some x) → Derives .block bs body → Derives (.optional (.otherwise m)) es other →
      Derives (.ifStmt m) (w :: (hs ++ (bs ++ es)))
        ⟨i, extent (w :: (hs ++ (bs ++ es))), .ifStmt init x body other⟩
  | elseIf : w.kind = .kwElse → Derives (.ifStmt m) ts s → Derives (.otherwise m) (w :: ts) s
  | elseBlock : w.kind = .kwElse → Derives .block ts b →
      Derives (.otherwise m) (w :: ts) ⟨i, b.span, .block b⟩
  -- loops
  | infinite : Derives (.forHeader m) [] .infinite
  | forCond : Derives (.simple .forHeader m) ts ⟨.expr x, sp⟩ →
      Derives (.forHeader m) ts (.cond x)
  | forRange : Derives (.simple .forHeader m) ts ⟨.range left define x, sp⟩ →
      Derives (.forHeader m) ts (.range ⟨i, sp, .range left define x⟩)
  | forClause : Derives (.optional (.init m)) is init → c.kind = .semi →
      Derives (.optional (.expr m)) xs test → c'.kind = .semi →
      Derives (.optional (.post m)) ps post →
      Derives (.forHeader m) (is ++ c :: (xs ++ c' :: ps)) (.clause init test post)
  | init : Derives (.simple .forHeader m) ts ⟨form, sp⟩ →
      (∀ left define x, form ≠ .range left define x) → Derives (.init m) ts ⟨i, sp, form⟩
  | post : Derives (.simple .plain m) ts ⟨form, sp⟩ →
      (∀ names op xs, form ≠ .shortVar names op xs) → Derives (.post m) ts ⟨i, sp, form⟩
  | loop : w.kind = .kwFor → Derives (.forHeader m.header) hs header → EndsHeader header.last →
      Derives .block bs body →
      Derives (.forStmt m) (w :: (hs ++ bs)) (.forStmt header body)
  -- declarations
  | values : a.kind = .assign → Derives (.exprs m) xs values →
      Derives (.values m) (a :: xs) values
  | constSpec : Derives .names ns names → Derives (.optional .type) ts type →
      Derives (.optional (.values m)) vs values →
      (values = none → type = none ∧ iota ≠ 0) →
      Derives (.spec .const m) (ns ++ (ts ++ vs))
        (.const ⟨doc, names, type, values.getD [], iota⟩)
  | varSpec : Derives .names ns names → Derives (.optional .type) ts type →
      Derives (.optional (.values m)) vs values → (values = none → type ≠ none) →
      Derives (.spec .var m) (ns ++ (ts ++ vs)) (.var ⟨doc, names, type, values.getD []⟩)
  | typeSpec : Derives .name ns n → Derives (.optional (.mark .assign)) as assign →
      Derives .type ts t →
      Derives (.spec .type m) (ns ++ (as ++ ts)) (.type ⟨doc, n, assign, t⟩)
  | specDecl : Derives (.spec k m) ts form → Derives (.specDecl k m) ts ⟨i, extent ts, form⟩
  | loneSpec : w.kind = k.keyword → Derives (.spec k m) ts form →
      Numbered [⟨i, extent (w :: ts), form⟩] →
      Derives (.group k m) (w :: ts) [⟨i, extent (w :: ts), form⟩]
  | specGroup : w.kind = k.keyword → l.kind = .lParen →
      Derives (.listed .semi (.specDecl k .inside)) ts ds → Numbered ds → r.kind = .rParen →
      Derives (.group k m) (w :: l :: (ts ++ [r])) ds
  | func : w.kind = .kwFunc → Derives .name ns n → Derives .signature ts sig →
      Derives (.optional .block) bs body →
      Derives .function (w :: (ns ++ (ts ++ bs)))
        ⟨i, extent (w :: (ns ++ (ts ++ bs))), .func ⟨doc, w.span, n, sig, body⟩⟩
  | method : w.kind = .kwFunc → Derives .parameters rs receiver →
      Grammar.isReceiver receiver.params = true → Derives .name ns n →
      Derives .signature ts sig → Derives (.optional .block) bs body →
      Derives .function (w :: (rs ++ (ns ++ (ts ++ bs))))
        ⟨i, extent (w :: (rs ++ (ns ++ (ts ++ bs)))),
          .method ⟨doc, w.span, receiver, n, sig, body⟩⟩
  -- imports
  | dotImport : d.kind = .dot → Derives .importName [d] (.dot d.span)
  | nameImport : Derives .name ts n → Derives .importName ts (.name n)
  | importPath : Literal.decode t.kind t.text = some (.string bytes) →
      Derives .importPath [t] (Text.lossyText bytes, t.span)
  | importSpec : Derives (.optional .importName) ns name → Derives .importPath ts (path, sp) →
      Derives .importSpec (ns ++ ts) ⟨name, path, sp⟩
  | loneImport : w.kind = .kwImport → Derives .importSpec ts spec →
      Derives .importDecl (w :: ts) ⟨i, extent (w :: ts), .imports ⟨doc, w.span, [spec]⟩⟩
  | importGroup : w.kind = .kwImport → l.kind = .lParen →
      Derives (.listed .semi .importSpec) ts specs → r.kind = .rParen →
      Derives .importDecl (w :: l :: (ts ++ [r]))
        ⟨i, extent (w :: l :: (ts ++ [r])), .imports ⟨doc, w.span, specs⟩⟩
  -- files
  | topImport : Derives .importDecl ts d → Derives (.topLevel true o) ts [d]
  | topGroup : Derives (.group k .inside) ts ds → Derives (.topLevel i true) ts ds
  | topFunction : Derives .function ts d → Derives (.topLevel i true) ts [d]
  | noDecls : Derives (.decls i o) [] []
  | moreDecls : Derives (.decls i o) ts ds → Derives (.topLevel i o) us more →
      Possibly .semi cs → Derives (.decls i o) (ts ++ (us ++ cs)) (ds ++ more)
  | file : w.kind = .kwPackage → Derives .name ns n → Possibly .semi cs →
      Derives (.decls true false) is imports → Derives (.decls false true) ds decls →
      Derives .file (w :: (ns ++ (cs ++ (is ++ ds))))
        ⟨w.span, n, imports, decls, extent (w :: (ns ++ (cs ++ (is ++ ds))))⟩

-- ============================================================ inversion

/-- What items with a separator after each are: none, or some and one
more. -/
theorem Derives.terminated_cases {sep : Token.Kind} {p : Phrase} {ts : List Token}
    {as : List p.Result} (h : Derives (.terminated sep p) ts as) :
    ts = [] ∧ as = [] ∨ ∃ us bs vs b c, ts = us ++ (vs ++ [c]) ∧ as = bs ++ [b] ∧
      Derives (.terminated sep p) us bs ∧ Derives p vs b ∧ c.kind = sep ∧ sep.isLeaf = false := by
  cases h with
  | terminatedNil => exact .inl ⟨rfl, rfl⟩
  | terminatedSnoc h h' hc hsep => exact .inr ⟨_, _, _, _, _, rfl, rfl, h, h', hc, hsep⟩

theorem Derives.separated_cases {sep : Token.Kind} {p : Phrase} {ts : List Token}
    {as : List p.Result} (h : Derives (.separated sep p) ts as) :
    ∃ us bs vs b, ts = us ++ vs ∧ as = bs ++ [b] ∧
      Derives (.terminated sep p) us bs ∧ Derives p vs b := by
  cases h with
  | separated h h' => exact ⟨_, _, _, _, rfl, rfl, h, h'⟩

/-- The last item of a list, with or without its separator. -/
theorem Derives.listed_snoc {sep : Token.Kind} {p : Phrase} {ts us cs : List Token}
    {as : List p.Result} {a : p.Result} (h : Derives (.terminated sep p) ts as)
    (ha : Derives p us a) (hcs : Possibly sep cs) (hsep : sep.isLeaf = false) :
    Derives (.listed sep p) (ts ++ (us ++ cs)) (as ++ [a]) := by
  obtain rfl | ⟨c, hc, rfl⟩ := hcs
  · rw [List.append_nil]
    exact .listedOpen (.separated h ha)
  · exact .listedClosed (.terminatedSnoc h ha hc hsep)

/-- Items that can all be read as something else. -/
theorem Derives.terminated_imp {sep : Token.Kind} {p q : Phrase} {R : p.Result → q.Result → Prop}
    (hR : ∀ ts a b, R a b → Derives p ts a → Derives q ts b) {as : List p.Result}
    {bs : List q.Result} (hab : List.Forall₂ R as bs) {ts : List Token}
    (h : Derives (.terminated sep p) ts as.reverse) :
    Derives (.terminated sep q) ts bs.reverse := by
  induction hab generalizing ts with
  | nil =>
    obtain ⟨rfl, -⟩ | ⟨_, _, _, _, _, -, has, -⟩ := h.terminated_cases
    · exact .terminatedNil
    · simp at has
  | @cons a b as bs hab _ ih =>
    obtain ⟨-, has⟩ | ⟨us, as', vs, a', c, rfl, has, h, ha, hc, hsep⟩ := h.terminated_cases
    · simp at has
    · rw [List.reverse_cons] at has
      obtain ⟨rfl, hlast⟩ := List.append_inj' has rfl
      obtain rfl : a = a' := by simpa using hlast
      rw [List.reverse_cons]
      exact .terminatedSnoc (ih h) (hR _ _ _ ‹_› ha) hc hsep

theorem Derives.separated_imp {sep : Token.Kind} {p q : Phrase} {R : p.Result → q.Result → Prop}
    (hR : ∀ ts a b, R a b → Derives p ts a → Derives q ts b) {as : List p.Result}
    {bs : List q.Result} (hab : List.Forall₂ R as bs) {ts : List Token}
    (h : Derives (.separated sep p) ts as.reverse) :
    Derives (.separated sep q) ts bs.reverse := by
  obtain ⟨us, as', vs, a', rfl, has, h, ha⟩ := h.separated_cases
  cases hab with
  | nil => simp at has
  | @cons a b as bs hR' hab =>
    rw [List.reverse_cons] at has
    obtain ⟨rfl, hlast⟩ := List.append_inj' has rfl
    obtain rfl : a = a' := by simpa using hlast
    rw [List.reverse_cons]
    exact .separated (h.terminated_imp hR hab) (hR _ _ _ hR' ha)

-- ========================================================= no empty text

/-- Phrases that no empty list of tokens can be read as. -/
def Phrase.takesTokens : Phrase → Bool
  | optional _ | terminated _ _ | listed _ _ | arguments | params | endedStmts _ | stmts _
  | forHeader _ | decls _ _ => false
  | separated _ p => p.takesTokens
  | _ => true

theorem Derives.ne_nil {p : Phrase} {ts : List Token} {a : p.Result} (h : Derives p ts a)
    (hp : p.takesTokens = true) : ts ≠ [] := by
  induction h <;> simp_all [Phrase.takesTokens]

theorem Derives.typeName_span {ts : List Token} {t : TypeExpr} (h : Derives .typeName ts t) :
    t.span = extent ts := by
  cases h <;> rfl

theorem Derives.parameters_span {ts : List Token} {ps : ParamList}
    (h : Derives .parameters ts ps) : ps.span = extent ts := by
  cases h with
  | parameters => rfl

theorem Derives.signature_span {ts : List Token} {sig : Signature}
    (h : Derives .signature ts sig) : sig.span = extent ts := by
  cases h with
  | signature => rfl

end GoSource
