import FragmentSynthesis.Statement

namespace FragmentSynthesis.Proofs.Mentions

open FragmentSynthesis.Expression
open FragmentSynthesis.Statement
open FragmentSynthesis.TypeName

/-- What a name stands for where it is mentioned: a variable or an element of some type, or a loop
counter, which is declared in the header of its loop or not. -/
inductive Role
  | variable (type : String)
  | counter (inHeader : Bool)
  | element (type : String)
  deriving DecidableEq

/-- The type of a variable in its role. Counters are whole numbers. -/
def Role.type : Role → String
  | .variable type => type
  | .counter _ => int
  | .element type => type

/-- Counters and elements are bound by their loops. -/
def Role.isBinder : Role → Bool
  | .variable _ => false
  | _ => true

/-- A name where it is mentioned, in its role. -/
structure Mention where
  role : Role
  name : String
  deriving DecidableEq

/-- The mention with another name. -/
def Mention.withName (name : String) (m : Mention) : Mention :=
  { m with name := name }

mutual

/-- The variables of an expression from left to right. -/
def mentions : Expr → List Mention
  | .literal .. => []
  | .variable name type => [⟨.variable type, name⟩]
  | .unary _ operand => mentions operand
  | .binary _ left right => mentions left ++ mentions right
  | .use _ none args => mentionsEach args
  | .use _ (some receiver) args => mentions receiver ++ mentionsEach args
  | .foreign _ => []

def mentionsEach : List Expr → List Mention
  | [] => []
  | e :: rest => mentions e ++ mentionsEach rest

end

/-- Also the expression that an open test remembers is gone through. -/
def mentionsInTest : Test → List Mention
  | .concrete e => mentions e
  | .angelic none => []
  | .angelic (some e) => mentions e
  | .blank => []
  | .unknown => []

/-- Only a counting loop binds its counter. -/
def mentionsInHead : LoopHead → List Mention
  | .counting counter declared => [⟨.counter declared, counter⟩]
  | .testing _ => []

mutual

/-- The variables of a statement in the order in which a splice comes to them. -/
def mentionsInStmt : Stmt → List Mention
  | .assign _ target value => mentions target ++ mentions value
  | .call _ function => mentions function
  | .branch _ test body => mentionsInTest test ++ mentionsInBlock body
  | .loop _ head test body => mentionsInHead head ++ (mentionsInTest test ++ mentionsInBlock body)
  | .foreach _ name type container body =>
      ⟨.element type, name⟩ :: (mentions container ++ mentionsInBlock body)
  | .foreign _ => []

def mentionsInBlock : List Stmt → List Mention
  | [] => []
  | s :: rest => mentionsInStmt s ++ mentionsInBlock rest

end

/-- The variables of an expression or a statement. -/
def mentionsInNode : Node → List Mention
  | .expr e => mentions e
  | .stmt s => mentionsInStmt s
  | .text _ => []
  | .absent => []

/-- The mentions of the names that loops bind. -/
def bindersOf (ms : List Mention) : List Mention :=
  ms.filter (·.role.isBinder)

@[simp] theorem bindersOf_append (ms others : List Mention) :
    bindersOf (ms ++ others) = bindersOf ms ++ bindersOf others :=
  List.filter_append ..

@[simp] theorem mem_bindersOf {ms : List Mention} {m : Mention} :
    m ∈ bindersOf ms ↔ m ∈ ms ∧ m.role.isBinder = true :=
  List.mem_filter

/-- The names that some loop binds. -/
def boundNames (ms : List Mention) : List String :=
  (bindersOf ms).map Mention.name

theorem mem_boundNames {ms : List Mention} {name : String} :
    name ∈ boundNames ms ↔ ∃ m ∈ ms, m.role.isBinder = true ∧ m.name = name := by
  simp [boundNames, and_assoc]

theorem boundNames_cons (m : Mention) (ms : List Mention) :
    boundNames (m :: ms) =
      if m.role.isBinder = true then m.name :: boundNames ms else boundNames ms := by
  unfold boundNames bindersOf
  rw [List.filter_cons]
  split <;> rfl

theorem mem_boundNames_cons {m : Mention} {ms : List Mention} {name : String} :
    name ∈ boundNames (m :: ms) ↔ (m.role.isBinder = true ∧ m.name = name) ∨
      name ∈ boundNames ms := by
  rw [boundNames_cons]
  split
  · rename_i hrole
    rw [List.mem_cons, hrole, eq_comm]
    simp only [true_and]
  · rename_i hrole
    simp only [hrole, false_and, false_or, Bool.false_eq_true]

theorem nodup_boundNames_cons {m : Mention} {ms : List Mention} :
    (boundNames (m :: ms)).Nodup ↔
      (m.role.isBinder = true → m.name ∉ boundNames ms) ∧ (boundNames ms).Nodup := by
  rw [boundNames_cons]
  split <;> simp_all

/-- Each name has one type wherever it is mentioned. -/
def OneType (ms : List Mention) : Prop :=
  ∀ m ∈ ms, ∀ o ∈ ms, m.name = o.name → m.role.type = o.role.type

theorem OneType.subset {ms all : List Mention} (h : OneType all) (hms : ms ⊆ all) : OneType ms :=
  fun m hm o ho => h m (hms hm) o (hms ho)

mutual

theorem isBinder_mentions (e : Expr) : ∀ m ∈ mentions e, m.role.isBinder = false := by
  cases e with
  | literal value type => exact List.forall_mem_nil _
  | «variable» name type => exact List.forall_mem_singleton.mpr rfl
  | unary op operand => exact isBinder_mentions operand
  | binary op left right =>
      exact List.forall_mem_append.mpr ⟨isBinder_mentions left, isBinder_mentions right⟩
  | use component receiver args =>
      cases receiver with
      | none => exact isBinder_mentionsEach args
      | some receiver =>
          exact List.forall_mem_append.mpr ⟨isBinder_mentions receiver, isBinder_mentionsEach args⟩
  | foreign f => exact List.forall_mem_nil _

theorem isBinder_mentionsEach (args : List Expr) :
    ∀ m ∈ mentionsEach args, m.role.isBinder = false := by
  cases args with
  | nil => exact List.forall_mem_nil _
  | cons e rest =>
      exact List.forall_mem_append.mpr ⟨isBinder_mentions e, isBinder_mentionsEach rest⟩

end

mutual

/-- An expression with its names left out. -/
def shape : Expr → Expr
  | .literal value type => .literal value type
  | .variable _ type => .variable "" type
  | .unary op operand => .unary op (shape operand)
  | .binary op left right => .binary op (shape left) (shape right)
  | .use component none args => .use component none (shapeEach args)
  | .use component (some receiver) args => .use component (some (shape receiver)) (shapeEach args)
  | .foreign f => .foreign f

def shapeEach : List Expr → List Expr
  | [] => []
  | e :: rest => shape e :: shapeEach rest

end

/-- A test without the names of its variables. -/
def shapeTest : Test → Test
  | .concrete e => .concrete (shape e)
  | .angelic none => .angelic none
  | .angelic (some e) => .angelic (some (shape e))
  | .blank => .blank
  | .unknown => .unknown

/-- The head of a loop without its counter. -/
def shapeHead : LoopHead → LoopHead
  | .counting _ declared => .counting "" declared
  | .testing counter => .testing counter

mutual

/-- A statement without the names of its variables. -/
def shapeStmt : Stmt → Stmt
  | .assign indent target value => .assign indent (shape target) (shape value)
  | .call indent function => .call indent (shape function)
  | .branch indent test body => .branch indent (shapeTest test) (shapeBlock body)
  | .loop indent head test body => .loop indent (shapeHead head) (shapeTest test) (shapeBlock body)
  | .foreach indent _ type container body =>
      .foreach indent "" type (shape container) (shapeBlock body)
  | .foreign f => .foreign f

def shapeBlock : List Stmt → List Stmt
  | [] => []
  | s :: rest => shapeStmt s :: shapeBlock rest

end

/-- A node without the names of its variables. -/
def shapeNode : Node → Node
  | .expr e => .expr (shape e)
  | .stmt s => .stmt (shapeStmt s)
  | .text s => .text s
  | .absent => .absent

mutual

theorem mentions_shape (e : Expr) : mentions (shape e) = (mentions e).map (·.withName "") := by
  cases e with
  | literal value type => rfl
  | «variable» name type => rfl
  | unary op operand => exact mentions_shape operand
  | binary op left right =>
      simp only [shape, mentions, List.map_append, mentions_shape left, mentions_shape right]
  | use component receiver args =>
      cases receiver with
      | none => exact mentionsEach_shape args
      | some receiver =>
          simp only [shape, mentions, List.map_append, mentions_shape receiver,
            mentionsEach_shape args]
  | foreign f => rfl

theorem mentionsEach_shape (args : List Expr) :
    mentionsEach (shapeEach args) = (mentionsEach args).map (·.withName "") := by
  cases args with
  | nil => rfl
  | cons e rest =>
      simp only [shapeEach, mentionsEach, List.map_append, mentions_shape e,
        mentionsEach_shape rest]

end

theorem mentionsInTest_shape (test : Test) :
    mentionsInTest (shapeTest test) = (mentionsInTest test).map (·.withName "") := by
  cases test with
  | concrete e => exact mentions_shape e
  | angelic remembered =>
      cases remembered with
      | none => rfl
      | some e => exact mentions_shape e
  | blank => rfl
  | unknown => rfl

theorem mentionsInHead_shape (head : LoopHead) :
    mentionsInHead (shapeHead head) = (mentionsInHead head).map (·.withName "") := by
  cases head <;> rfl

mutual

theorem mentionsInStmt_shape (s : Stmt) :
    mentionsInStmt (shapeStmt s) = (mentionsInStmt s).map (·.withName "") := by
  cases s with
  | assign indent target value =>
      simp only [shapeStmt, mentionsInStmt, List.map_append, mentions_shape]
  | call indent function => exact mentions_shape function
  | branch indent test body =>
      simp only [shapeStmt, mentionsInStmt, List.map_append, mentionsInTest_shape,
        mentionsInBlock_shape body]
  | loop indent head test body =>
      simp only [shapeStmt, mentionsInStmt, List.map_append, mentionsInHead_shape,
        mentionsInTest_shape, mentionsInBlock_shape body]
  | foreach indent name type container body =>
      simp only [shapeStmt, mentionsInStmt, List.map_cons, List.map_append, mentions_shape,
        mentionsInBlock_shape body, Mention.withName]
  | foreign f => rfl

theorem mentionsInBlock_shape (body : List Stmt) :
    mentionsInBlock (shapeBlock body) = (mentionsInBlock body).map (·.withName "") := by
  cases body with
  | nil => rfl
  | cons s rest =>
      simp only [shapeBlock, mentionsInBlock, List.map_append, mentionsInStmt_shape s,
        mentionsInBlock_shape rest]

end

/-- Splits equal mentions where parts of equal shape were put together. -/
theorem append_inj_of_withName {ms others ns rest : List Mention}
    (hshape : ms.map (·.withName "") = others.map (·.withName ""))
    (h : ms ++ ns = others ++ rest) : ms = others ∧ ns = rest :=
  List.append_inj h (by simpa using congrArg List.length hshape)

theorem append_inj_of_shape {a b : Expr} {ms others : List Mention} (hshape : shape a = shape b)
    (h : mentions a ++ ms = mentions b ++ others) : mentions a = mentions b ∧ ms = others :=
  append_inj_of_withName (by rw [← mentions_shape, ← mentions_shape, hshape]) h

mutual

theorem eq_of_shape (a b : Expr) (hshape : shape a = shape b) (h : mentions a = mentions b) :
    a = b := by
  rcases a with ⟨value, type⟩ | ⟨name, type⟩ | ⟨op, operand⟩ | ⟨op, left, right⟩ |
      ⟨component, _ | receiver, args⟩ | f <;>
    rcases b with ⟨value', type'⟩ | ⟨name', type'⟩ | ⟨op', operand'⟩ | ⟨op', left', right'⟩ |
      ⟨component', _ | receiver', args'⟩ | f' <;>
    simp only [shape, reduceCtorEq, Expr.literal.injEq, Expr.variable.injEq, Expr.unary.injEq,
      Expr.binary.injEq, Expr.use.injEq, Expr.foreign.injEq, Option.some.injEq, false_and,
      and_false, true_and] at hshape
  case literal.literal => rw [hshape.1, hshape.2]
  case «variable».«variable» =>
    simp only [mentions, List.cons.injEq, Mention.mk.injEq] at h
    rw [h.1.2, hshape]
  case unary.unary => rw [hshape.1, eq_of_shape operand operand' hshape.2 h]
  case binary.binary =>
    obtain ⟨hleft, hright⟩ := append_inj_of_shape hshape.2.1 h
    rw [hshape.1, eq_of_shape left left' hshape.2.1 hleft,
      eq_of_shape right right' hshape.2.2 hright]
  case use.none.use.none => rw [hshape.1, eq_of_shapeEach args args' hshape.2 h]
  case use.some.use.some =>
    obtain ⟨hreceiver, hargs⟩ := append_inj_of_shape hshape.2.1 h
    rw [hshape.1, eq_of_shape receiver receiver' hshape.2.1 hreceiver,
      eq_of_shapeEach args args' hshape.2.2 hargs]
  case foreign.foreign => rw [hshape]

theorem eq_of_shapeEach (args others : List Expr) (hshape : shapeEach args = shapeEach others)
    (h : mentionsEach args = mentionsEach others) : args = others := by
  rcases args with _ | ⟨e, rest⟩ <;> rcases others with _ | ⟨e', rest'⟩ <;>
    simp only [shapeEach, reduceCtorEq, List.cons.injEq] at hshape
  case nil.nil => rfl
  case cons.cons =>
    obtain ⟨hfirst, hrest⟩ := append_inj_of_shape hshape.1 h
    rw [eq_of_shape e e' hshape.1 hfirst, eq_of_shapeEach rest rest' hshape.2 hrest]

end

theorem eq_of_shapeTest (test other : Test) (hshape : shapeTest test = shapeTest other)
    (h : mentionsInTest test = mentionsInTest other) : test = other := by
  rcases test with e | ⟨_ | e⟩ | _ | _ <;> rcases other with e' | ⟨_ | e'⟩ | _ | _ <;>
    simp only [shapeTest, reduceCtorEq, Test.concrete.injEq, Test.angelic.injEq,
      Option.some.injEq] at hshape
  case concrete.concrete => rw [eq_of_shape e e' hshape h]
  case angelic.none.angelic.none => rfl
  case angelic.some.angelic.some => rw [eq_of_shape e e' hshape h]
  case blank.blank => rfl
  case unknown.unknown => rfl

theorem eq_of_shapeHead (head other : LoopHead) (hshape : shapeHead head = shapeHead other)
    (h : mentionsInHead head = mentionsInHead other) : head = other := by
  rcases head with ⟨counter, declared⟩ | counter <;>
    rcases other with ⟨counter', declared'⟩ | counter' <;>
    simp only [shapeHead, reduceCtorEq, LoopHead.counting.injEq, LoopHead.testing.injEq,
      true_and] at hshape
  case counting.counting =>
    simp only [mentionsInHead, List.cons.injEq, Mention.mk.injEq] at h
    rw [h.1.2, hshape]
  case testing.testing => rw [hshape]

theorem append_inj_of_shapeTest {test other : Test} {ms others : List Mention}
    (hshape : shapeTest test = shapeTest other)
    (h : mentionsInTest test ++ ms = mentionsInTest other ++ others) :
    mentionsInTest test = mentionsInTest other ∧ ms = others :=
  append_inj_of_withName (by rw [← mentionsInTest_shape, ← mentionsInTest_shape, hshape]) h

theorem append_inj_of_shapeHead {head other : LoopHead} {ms others : List Mention}
    (hshape : shapeHead head = shapeHead other)
    (h : mentionsInHead head ++ ms = mentionsInHead other ++ others) :
    mentionsInHead head = mentionsInHead other ∧ ms = others :=
  append_inj_of_withName (by rw [← mentionsInHead_shape, ← mentionsInHead_shape, hshape]) h

mutual

theorem eq_of_shapeStmt (s t : Stmt) (hshape : shapeStmt s = shapeStmt t)
    (h : mentionsInStmt s = mentionsInStmt t) : s = t := by
  cases s <;> cases t <;>
    simp only [shapeStmt, reduceCtorEq, Stmt.assign.injEq, Stmt.call.injEq, Stmt.branch.injEq,
      Stmt.loop.injEq, Stmt.foreach.injEq, Stmt.foreign.injEq, true_and] at hshape
  case assign.assign =>
    obtain ⟨htarget, hvalue⟩ := append_inj_of_shape hshape.2.1 h
    rw [hshape.1, eq_of_shape _ _ hshape.2.1 htarget, eq_of_shape _ _ hshape.2.2 hvalue]
  case call.call => rw [hshape.1, eq_of_shape _ _ hshape.2 h]
  case branch.branch =>
    obtain ⟨htest, hbody⟩ := append_inj_of_shapeTest hshape.2.1 h
    rw [hshape.1, eq_of_shapeTest _ _ hshape.2.1 htest, eq_of_shapeBlock _ _ hshape.2.2 hbody]
  case loop.loop =>
    obtain ⟨hhead, hrest⟩ := append_inj_of_shapeHead hshape.2.1 h
    obtain ⟨htest, hbody⟩ := append_inj_of_shapeTest hshape.2.2.1 hrest
    rw [hshape.1, eq_of_shapeHead _ _ hshape.2.1 hhead, eq_of_shapeTest _ _ hshape.2.2.1 htest,
      eq_of_shapeBlock _ _ hshape.2.2.2 hbody]
  case foreach.foreach =>
    simp only [mentionsInStmt, List.cons.injEq, Mention.mk.injEq] at h
    obtain ⟨hcontainer, hbody⟩ := append_inj_of_shape hshape.2.2.1 h.2
    rw [hshape.1, h.1.2, hshape.2.1, eq_of_shape _ _ hshape.2.2.1 hcontainer,
      eq_of_shapeBlock _ _ hshape.2.2.2 hbody]
  case foreign.foreign => rw [hshape]

theorem eq_of_shapeBlock (body other : List Stmt) (hshape : shapeBlock body = shapeBlock other)
    (h : mentionsInBlock body = mentionsInBlock other) : body = other := by
  rcases body with _ | ⟨s, rest⟩ <;> rcases other with _ | ⟨s', rest'⟩ <;>
    simp only [shapeBlock, reduceCtorEq, List.cons.injEq] at hshape
  case nil.nil => rfl
  case cons.cons =>
    obtain ⟨hfirst, hrest⟩ := append_inj_of_withName
      (by rw [← mentionsInStmt_shape, ← mentionsInStmt_shape, hshape.1]) h
    rw [eq_of_shapeStmt s s' hshape.1 hfirst, eq_of_shapeBlock rest rest' hshape.2 hrest]

end

end FragmentSynthesis.Proofs.Mentions
