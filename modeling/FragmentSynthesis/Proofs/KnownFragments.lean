import FragmentSynthesis.Proofs.Mentions
import FragmentSynthesis.UsedNames

namespace FragmentSynthesis.Proofs.KnownFragments

open FragmentSynthesis.Expression
open FragmentSynthesis.Faults
open FragmentSynthesis.Proofs.Mentions
open FragmentSynthesis.Statement
open FragmentSynthesis.UsedNames

/-- Whether a node is an expression or a statement without foreign parts. -/
def nodeKnown : Node → Bool
  | .expr e => e.isKnown
  | .stmt s => s.isKnown
  | .text _ => false
  | .absent => false

mutual

theorem isCopyable_of_known (e : Expr) (he : e.isKnown = true) : e.isCopyable = true := by
  cases e with
  | literal value type => rfl
  | «variable» name type => rfl
  | unary op operand => exact isCopyable_of_known operand he
  | binary op left right =>
      obtain ⟨hleft, hright⟩ := Bool.and_eq_true_iff.mp he
      exact Bool.and_eq_true_iff.mpr
        ⟨isCopyable_of_known left hleft, isCopyable_of_known right hright⟩
  | use component receiver args =>
      cases receiver with
      | none => exact argsCopyable_of_known args he
      | some receiver =>
          obtain ⟨hreceiver, hargs⟩ := Bool.and_eq_true_iff.mp he
          exact Bool.and_eq_true_iff.mpr
            ⟨isCopyable_of_known receiver hreceiver, argsCopyable_of_known args hargs⟩
  | foreign f => cases he

theorem argsCopyable_of_known (args : List Expr) (hargs : argsKnown args = true) :
    argsCopyable args = true := by
  cases args with
  | nil => rfl
  | cons e rest =>
      obtain ⟨he, hrest⟩ := Bool.and_eq_true_iff.mp hargs
      exact Bool.and_eq_true_iff.mpr ⟨isCopyable_of_known e he, argsCopyable_of_known rest hrest⟩

end

theorem testCopyable_of_known (test : Test) (htest : test.isKnown = true) :
    test.isCopyable = true := by
  cases test with
  | concrete e => exact isCopyable_of_known e htest
  | angelic remembered =>
      cases remembered with
      | none => rfl
      | some e => exact isCopyable_of_known e htest
  | blank => cases htest
  | unknown => cases htest

mutual

theorem stmtCopyable_of_known (x : Stmt) (hx : x.isKnown = true) : x.isCopyable = true := by
  cases x with
  | assign indent target value =>
      obtain ⟨htarget, hvalue⟩ := Bool.and_eq_true_iff.mp hx
      exact Bool.and_eq_true_iff.mpr
        ⟨isCopyable_of_known target htarget, isCopyable_of_known value hvalue⟩
  | call indent function => exact isCopyable_of_known function hx
  | branch indent test body =>
      obtain ⟨htest, hbody⟩ := Bool.and_eq_true_iff.mp hx
      exact Bool.and_eq_true_iff.mpr
        ⟨testCopyable_of_known test htest, blockCopyable_of_known body hbody⟩
  | loop indent head test body =>
      obtain ⟨htest, hbody⟩ := Bool.and_eq_true_iff.mp hx
      exact Bool.and_eq_true_iff.mpr
        ⟨testCopyable_of_known test htest, blockCopyable_of_known body hbody⟩
  | foreach indent name type container body =>
      obtain ⟨hcontainer, hbody⟩ := Bool.and_eq_true_iff.mp hx
      exact Bool.and_eq_true_iff.mpr
        ⟨isCopyable_of_known container hcontainer, blockCopyable_of_known body hbody⟩
  | foreign f => cases hx

theorem blockCopyable_of_known (body : List Stmt) (hbody : blockKnown body = true) :
    blockCopyable body = true := by
  cases body with
  | nil => rfl
  | cons x rest =>
      obtain ⟨hx, hrest⟩ := Bool.and_eq_true_iff.mp hbody
      exact Bool.and_eq_true_iff.mpr
        ⟨stmtCopyable_of_known x hx, blockCopyable_of_known rest hrest⟩

end

theorem copy_of_known {n : Node} (hn : nodeKnown n = true) : n.copy = .ok n := by
  refine if_pos ?_
  cases n with
  | expr e => exact isCopyable_of_known e hn
  | stmt x => exact stmtCopyable_of_known x hn
  | text text => cases hn
  | absent => cases hn

mutual

theorem isKnown_shape (e : Expr) : (shape e).isKnown = e.isKnown := by
  cases e with
  | literal value type => rfl
  | «variable» name type => rfl
  | unary op operand => exact isKnown_shape operand
  | binary op left right =>
      simp only [shape, Expr.isKnown, isKnown_shape left, isKnown_shape right]
  | use component receiver args =>
      cases receiver with
      | none => exact argsKnown_shape args
      | some receiver =>
          simp only [shape, Expr.isKnown, isKnown_shape receiver, argsKnown_shape args]
  | foreign f => rfl

theorem argsKnown_shape (args : List Expr) : argsKnown (shapeEach args) = argsKnown args := by
  cases args with
  | nil => rfl
  | cons e rest => simp only [shapeEach, argsKnown, isKnown_shape e, argsKnown_shape rest]

end

theorem testKnown_shape (test : Test) : (shapeTest test).isKnown = test.isKnown := by
  cases test with
  | concrete e => exact isKnown_shape e
  | angelic remembered =>
      cases remembered with
      | none => rfl
      | some e => exact isKnown_shape e
  | blank => rfl
  | unknown => rfl

mutual

theorem stmtKnown_shape (x : Stmt) : (shapeStmt x).isKnown = x.isKnown := by
  cases x with
  | assign indent target value => simp only [shapeStmt, Stmt.isKnown, isKnown_shape]
  | call indent function => exact isKnown_shape function
  | branch indent test body =>
      simp only [shapeStmt, Stmt.isKnown, testKnown_shape, blockKnown_shape body]
  | loop indent head test body =>
      simp only [shapeStmt, Stmt.isKnown, testKnown_shape, blockKnown_shape body]
  | foreach indent name type container body =>
      simp only [shapeStmt, Stmt.isKnown, isKnown_shape, blockKnown_shape body]
  | foreign f => rfl

theorem blockKnown_shape (body : List Stmt) : blockKnown (shapeBlock body) = blockKnown body := by
  cases body with
  | nil => rfl
  | cons x rest => simp only [shapeBlock, blockKnown, stmtKnown_shape x, blockKnown_shape rest]

end

theorem nodeKnown_shape (n : Node) : nodeKnown (shapeNode n) = nodeKnown n := by
  cases n with
  | expr e => exact isKnown_shape e
  | stmt x => exact stmtKnown_shape x
  | text text => rfl
  | absent => rfl

/-- An analysis answers with names that are all mentioned. -/
def NamesAmong (names : Except Fault (List String)) (ms : List Mention) : Prop :=
  ∃ found, names = .ok found ∧ found ⊆ ms.map Mention.name

theorem NamesAmong.append {first second : Except Fault (List String)} {ms others : List Mention}
    (h : NamesAmong first ms) (h' : NamesAmong second others) :
    NamesAmong (do let first ← first; let second ← second; return first ++ second)
      (ms ++ others) := by
  obtain ⟨found, rfl, hfound⟩ := h
  obtain ⟨found', rfl, hfound'⟩ := h'
  refine ⟨found ++ found', rfl, ?_⟩
  rw [List.map_append]
  exact List.append_subset.mpr ⟨List.subset_append_of_subset_left _ hfound,
    List.subset_append_of_subset_right _ hfound'⟩

theorem NamesAmong.concat {first second : Except Fault (List String)}
    {front ms others : List Mention} {names : List String} (h : NamesAmong first ms)
    (h' : NamesAmong second others) (hnames : names ⊆ front.map Mention.name) :
    NamesAmong (do let first ← first; let second ← second; return first ++ second ++ names)
      (front ++ (ms ++ others)) := by
  obtain ⟨found, rfl, hfound⟩ := h
  obtain ⟨found', rfl, hfound'⟩ := h'
  refine ⟨found ++ found' ++ names, rfl, ?_⟩
  simp only [List.map_append]
  intro name hname
  rcases List.mem_append.mp hname with hname | hname
  · apply List.mem_append_right
    rcases List.mem_append.mp hname with hname | hname
    · exact List.mem_append_left _ (hfound hname)
    · exact List.mem_append_right _ (hfound' hname)
  · exact List.mem_append_left _ (hnames hname)

mutual

theorem usedNames_among (e : Expr) (he : e.isKnown = true) :
    NamesAmong (usedNames e) (mentions e) := by
  cases e with
  | literal value type => exact ⟨[], rfl, List.nil_subset _⟩
  | «variable» name type => exact ⟨[name], rfl, List.Subset.refl _⟩
  | unary op operand => exact usedNames_among operand he
  | binary op left right =>
      obtain ⟨hleft, hright⟩ := Bool.and_eq_true_iff.mp he
      exact (usedNames_among left hleft).append (usedNames_among right hright)
  | use component receiver args =>
      cases receiver with
      | none => exact usedNamesEach_among args he
      | some receiver =>
          obtain ⟨hreceiver, hargs⟩ := Bool.and_eq_true_iff.mp he
          exact (usedNames_among receiver hreceiver).append (usedNamesEach_among args hargs)
  | foreign f => cases he

theorem usedNamesEach_among (args : List Expr) (hargs : argsKnown args = true) :
    NamesAmong (usedNamesEach args) (mentionsEach args) := by
  cases args with
  | nil => exact ⟨[], rfl, List.nil_subset _⟩
  | cons e rest =>
      obtain ⟨he, hrest⟩ := Bool.and_eq_true_iff.mp hargs
      exact (usedNames_among e he).append (usedNamesEach_among rest hrest)

end

theorem usedNamesInTest_among (test : Test) (htest : test.isKnown = true) :
    NamesAmong (usedNamesInTest test) (mentionsInTest test) := by
  cases test with
  | concrete e => exact usedNames_among e htest
  | angelic remembered => exact ⟨[], rfl, List.nil_subset _⟩
  | blank => cases htest
  | unknown => cases htest

theorem counterNames_subset (withCounters : Bool) (head : LoopHead) :
    counterNames withCounters head ⊆ (mentionsInHead head).map Mention.name := by
  cases head with
  | counting counter declared =>
      cases withCounters with
      | false => exact List.nil_subset _
      | true => exact List.Subset.refl _
  | testing counter => exact List.nil_subset _

mutual

theorem usedNamesInStmt_among (withCounters : Bool) (x : Stmt) (hx : x.isKnown = true) :
    NamesAmong (usedNamesInStmt withCounters x) (mentionsInStmt x) := by
  cases x with
  | assign indent target value =>
      obtain ⟨htarget, hvalue⟩ := Bool.and_eq_true_iff.mp hx
      exact (usedNames_among target htarget).append (usedNames_among value hvalue)
  | call indent function => exact usedNames_among function hx
  | branch indent test body =>
      obtain ⟨htest, hbody⟩ := Bool.and_eq_true_iff.mp hx
      exact (usedNamesInTest_among test htest).append
        (usedNamesInBlock_among withCounters body hbody)
  | loop indent head test body =>
      obtain ⟨htest, hbody⟩ := Bool.and_eq_true_iff.mp hx
      exact (usedNamesInTest_among test htest).concat
        (usedNamesInBlock_among withCounters body hbody) (counterNames_subset withCounters head)
  | foreach indent name type container body =>
      obtain ⟨hcontainer, hbody⟩ := Bool.and_eq_true_iff.mp hx
      have hname : [name] ⊆ [(⟨.element type, name⟩ : Mention)].map Mention.name :=
        List.Subset.refl _
      exact (usedNames_among container hcontainer).concat
        (usedNamesInBlock_among withCounters body hbody) hname
  | foreign f => cases hx

theorem usedNamesInBlock_among (withCounters : Bool) (body : List Stmt)
    (hbody : blockKnown body = true) :
    NamesAmong (usedNamesInBlock withCounters body) (mentionsInBlock body) := by
  cases body with
  | nil => exact ⟨[], rfl, List.nil_subset _⟩
  | cons x rest =>
      obtain ⟨hx, hrest⟩ := Bool.and_eq_true_iff.mp hbody
      exact (usedNamesInStmt_among withCounters x hx).append
        (usedNamesInBlock_among withCounters rest hrest)

end

end FragmentSynthesis.Proofs.KnownFragments
