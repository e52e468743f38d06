import FragmentSynthesis.Proofs.FullMatches

namespace FragmentSynthesis.Proofs.LargestCounts

open FragmentSynthesis.Binary64
open FragmentSynthesis.Expression
open FragmentSynthesis.Faults
open FragmentSynthesis.Matching
open FragmentSynthesis.Programs
open FragmentSynthesis.Proofs.FullMatches
open FragmentSynthesis.Proofs.MatchCounts
open FragmentSynthesis.Statement
open FragmentSynthesis.Weight

/-- The expressions right below an expression. -/
def children : Expr → List Expr
  | .literal _ _ => []
  | .variable _ _ => []
  | .unary _ operand => [operand]
  | .binary _ left right => [left, right]
  | .use _ none args => args
  | .use _ (some receiver) args => receiver :: args
  | .foreign _ => []

/-- An expression is another one or a part of it, at any depth. -/
inductive PartOf (x : Expr) : Expr → Prop
  | self : PartOf x x
  | child {e c : Expr} (hc : c ∈ children e) (h : PartOf x c) : PartOf x e

/-- The statements right below a statement. -/
def blockOf : Stmt → List Stmt
  | .assign _ _ _ => []
  | .call _ _ => []
  | .branch _ _ body => body
  | .loop _ _ _ body => body
  | .foreach _ _ _ _ body => body
  | .foreign _ => []

/-- A statement is another one or stands in a block of it, at any depth. -/
inductive Inside (x : Stmt) : Stmt → Prop
  | self : Inside x x
  | nested {s t : Stmt} (ht : t ∈ blockOf s) (h : Inside x t) : Inside x s

/-- The expression of a concrete test. -/
def exprsOfTest : Test → List Expr
  | .concrete e => [e]
  | _ => []

/-- The expressions that a statement has outside its block: the target and the value of an
assignment, a call, a concrete test, and what a loop runs through. -/
def exprsOf : Stmt → List Expr
  | .assign _ target value => [target, value]
  | .call _ function => [function]
  | .branch _ test _ => exprsOfTest test
  | .loop _ _ test _ => exprsOfTest test
  | .foreach _ _ _ container _ => [container]
  | .foreign _ => []

/-- An expression is part of one that belongs to a statement or to one in its blocks. -/
def OccursIn (x : Expr) (s : Stmt) : Prop :=
  ∃ t, Inside t s ∧ ∃ e ∈ exprsOf t, PartOf x e

/-- The nodes of a program that fragments are compared with: its statements at any depth, the
expressions that belong to these and the result, with all their parts. -/
def SearchedIn (p : Program) : Node → Prop
  | .stmt x => ∃ s ∈ p.statements, Inside x s
  | .expr x => (∃ s ∈ p.statements, OccursIn x s) ∨ ∃ e ∈ p.result, PartOf x e
  | .text _ => False
  | .absent => False

theorem partOf_iff (x e : Expr) : PartOf x e ↔ x = e ∨ ∃ c ∈ children e, PartOf x c := by
  constructor
  · rintro (_ | ⟨hc, h⟩)
    · exact .inl rfl
    · exact .inr ⟨_, hc, h⟩
  · rintro (rfl | ⟨c, hc, h⟩)
    · exact .self
    · exact .child hc h

theorem inside_iff (x s : Stmt) : Inside x s ↔ x = s ∨ ∃ t ∈ blockOf s, Inside x t := by
  constructor
  · rintro (_ | ⟨ht, h⟩)
    · exact .inl rfl
    · exact .inr ⟨_, ht, h⟩
  · rintro (rfl | ⟨t, ht, h⟩)
    · exact .self
    · exact .nested ht h

theorem occursIn_iff (x : Expr) (s : Stmt) :
    OccursIn x s ↔ (∃ e ∈ exprsOf s, PartOf x e) ∨ ∃ t ∈ blockOf s, OccursIn x t := by
  constructor
  · rintro ⟨t, ht, hx⟩
    rcases (inside_iff t s).mp ht with rfl | ⟨u, hu, htu⟩
    · exact .inl hx
    · exact .inr ⟨u, hu, t, htu, hx⟩
  · rintro (hx | ⟨u, hu, t, ht, hx⟩)
    · exact ⟨s, .self, hx⟩
    · exact ⟨t, .nested hu ht, hx⟩

/-- An answer is the largest count at the nodes of some sort, or zero if there are none. -/
def Largest {α : Type} (among : α → Prop) (countAt : α → Except Fault Nat)
    (x : Except Fault Nat) : Prop :=
  ∃ n, x = .ok n ∧ (∀ e, among e → ∃ m, countAt e = .ok m ∧ m ≤ n) ∧
    (n = 0 ∨ ∃ e, among e ∧ countAt e = .ok n)

section

variable {α : Type} {among others further : α → Prop} {countAt : α → Except Fault Nat}
  {x y z : Except Fault Nat}

theorem largest_none : Largest (fun _ => False) countAt (.ok 0) :=
  ⟨0, rfl, fun _ h => h.elim, .inl rfl⟩

theorem largest_one {bound : Nat} (e : α) (h : AtMost bound (countAt e)) :
    Largest (· = e) countAt (countAt e) := by
  obtain ⟨n, hn, -⟩ := h
  refine ⟨n, hn, ?_, .inr ⟨e, rfl, hn⟩⟩
  rintro _ rfl
  exact ⟨n, hn, Nat.le_refl n⟩

theorem Largest.congr (hx : Largest among countAt x) (h : ∀ e, others e ↔ among e) :
    Largest others countAt x := by
  rwa [funext fun e => propext (h e)]

theorem Largest.join (hx : Largest among countAt x) (hy : Largest others countAt y) :
    Largest (fun e => among e ∨ others e) countAt
      (do let m ← x; let n ← y; return max m n) := by
  obtain ⟨m, rfl, hbound, hreached⟩ := hx
  obtain ⟨n, rfl, hbound', hreached'⟩ := hy
  refine ⟨max m n, rfl, ?_, ?_⟩
  · rintro e (he | he)
    · obtain ⟨k, hk, hle⟩ := hbound e he
      exact ⟨k, hk, Nat.le_trans hle (Nat.le_max_left m n)⟩
    · obtain ⟨k, hk, hle⟩ := hbound' e he
      exact ⟨k, hk, Nat.le_trans hle (Nat.le_max_right m n)⟩
  · rcases Nat.le_total m n with hle | hle
    · rw [Nat.max_eq_right hle]
      exact hreached'.imp_right fun ⟨e, he, hcount⟩ => ⟨e, .inr he, hcount⟩
    · rw [Nat.max_eq_left hle]
      exact hreached.imp_right fun ⟨e, he, hcount⟩ => ⟨e, .inl he, hcount⟩

theorem Largest.join₃ (hx : Largest among countAt x) (hy : Largest others countAt y)
    (hz : Largest further countAt z) :
    Largest (fun e => among e ∨ others e ∨ further e) countAt
      (do let l ← x; let m ← y; let n ← z; return max (max l m) n) := by
  have h := ((hx.join hy).join hz).congr fun e => or_assoc.symm
  simpa only [bind_assoc, pure_bind] using h

/-- A bound is reached exactly if it is the count at some node. -/
theorem Largest.eq_bound_iff (hx : Largest among countAt x) {bound : Nat} (hpos : 0 < bound)
    (hbound : AtMost bound x) : x = .ok bound ↔ ∃ e, among e ∧ countAt e = .ok bound := by
  obtain ⟨n, rfl, hall, hreached⟩ := hx
  obtain ⟨n', hn', hle⟩ := hbound
  obtain rfl := Except.ok.inj hn'
  constructor
  · intro heq
    obtain rfl := Except.ok.inj heq
    exact hreached.resolve_left (Nat.ne_of_gt hpos)
  · rintro ⟨e, he, hcount⟩
    obtain ⟨m, hm, hmn⟩ := hall e he
    obtain rfl := Except.ok.inj (hcount.symm.trans hm)
    rw [Nat.le_antisymm hle hmn]

end

theorem Largest.atMost {α : Type} {among : α → Prop} {countAt : α → Except Fault Nat}
    {x : Except Fault Nat} (hx : Largest among countAt x) {bound : Nat}
    (h : ∀ e, among e → AtMost bound (countAt e)) : AtMost bound x := by
  obtain ⟨n, rfl, -, rfl | ⟨e, he, hcount⟩⟩ := hx
  · exact atMost_zero bound
  · rw [← hcount]
    exact h e he

mutual

theorem search_largest (f e : Expr) (hf : Comparable f) (he : Comparable e) :
    Largest (PartOf · e) (count f) (search f e) := by
  have hhere := largest_one e (count_atMost f e hf he)
  have hparts (x : Expr) := partOf_iff x e
  cases e with
  | literal value type => exact hhere.congr fun x => by simp [hparts, children]
  | «variable» name type => exact hhere.congr fun x => by simp [hparts, children]
  | unary op operand =>
      have hbelow := search_largest f operand hf he
      exact (hhere.join hbelow).congr fun x => by rw [hparts]; simp [children]
  | binary op left right =>
      have hfirst := search_largest f left hf he.1
      have hsecond := search_largest f right hf he.2
      exact (hhere.join₃ hfirst hsecond).congr fun x => by rw [hparts]; simp [children]
  | use component receiver args =>
      cases receiver with
      | none => exact (hhere.join (searchEach_largest f args hf he)).congr hparts
      | some receiver =>
          have hfirst := search_largest f receiver hf he.1
          have hbelow := searchEach_largest f args hf he.2
          exact (hhere.join₃ hfirst hbelow).congr fun x => by rw [hparts]; simp [children]
  | foreign g => exact he.elim

theorem searchEach_largest (f : Expr) (args : List Expr) (hf : Comparable f)
    (hargs : EachComparable args) :
    Largest (fun x => ∃ e ∈ args, PartOf x e) (count f) (searchEach f args) := by
  cases args with
  | nil => exact largest_none.congr fun x => by simp
  | cons e rest =>
      have hfirst := search_largest f e hf hargs.1
      have hothers := searchEach_largest f rest hf hargs.2
      exact (hfirst.join hothers).congr fun x => by simp

end

theorem searchTest_largest (f : Expr) (test : Test) (hf : Comparable f)
    (htest : TestComparable test) :
    Largest (fun x => ∃ e ∈ exprsOfTest test, PartOf x e) (count f) (searchTest f test) := by
  cases test with
  | concrete e => exact (search_largest f e hf htest).congr fun x => by simp [exprsOfTest]
  | angelic remembered => exact largest_none.congr fun x => by simp [exprsOfTest]
  | blank => exact htest.elim
  | unknown => exact htest.elim

mutual

theorem searchInStmt_largest (f : Expr) (s : Stmt) (hf : Comparable f) (hs : StmtComparable s) :
    Largest (OccursIn · s) (count f) (searchInStmt f s) := by
  have hoccurs (x : Expr) := occursIn_iff x s
  cases s with
  | assign indent target value =>
      have htarget := search_largest f target hf (comparable_of_isVariable hs.1)
      have hvalue := search_largest f value hf hs.2
      exact (htarget.join hvalue).congr fun x => by rw [hoccurs]; simp [exprsOf, blockOf]
  | call indent function =>
      exact (search_largest f function hf hs).congr fun x => by
        rw [hoccurs]; simp [exprsOf, blockOf]
  | branch indent test body =>
      exact ((searchTest_largest f test hf hs.1).join (searchInBlock_largest f body hf hs.2)).congr
        hoccurs
  | loop indent head test body =>
      exact ((searchTest_largest f test hf hs.1).join (searchInBlock_largest f body hf hs.2)).congr
        hoccurs
  | foreach indent name type container body =>
      have hcontainer := search_largest f container hf hs.1
      have hbody := searchInBlock_largest f body hf hs.2
      exact (hcontainer.join hbody).congr fun x => by rw [hoccurs]; simp [exprsOf, blockOf]
  | foreign g => exact hs.elim

theorem searchInBlock_largest (f : Expr) (body : List Stmt) (hf : Comparable f)
    (hbody : BlockComparable body) :
    Largest (fun x => ∃ s ∈ body, OccursIn x s) (count f) (searchInBlock f body) := by
  cases body with
  | nil => exact largest_none.congr fun x => by simp
  | cons s rest =>
      have hfirst := searchInStmt_largest f s hf hbody.1
      have hothers := searchInBlock_largest f rest hf hbody.2
      exact (hfirst.join hothers).congr fun x => by simp

end

mutual

theorem searchStmt_largest (f s : Stmt) (hf : StmtComparable f) (hs : StmtComparable s) :
    Largest (Inside · s) (countStmt f) (searchStmt f s) := by
  have hhere := largest_one s (countStmt_atMost f s hf hs)
  have hinside (x : Stmt) := inside_iff x s
  cases s with
  | assign indent target value => exact hhere.congr fun x => by simp [hinside, blockOf]
  | call indent function => exact hhere.congr fun x => by simp [hinside, blockOf]
  | branch indent test body => exact (hhere.join (searchBlock_largest f body hf hs.2)).congr hinside
  | loop indent head test body =>
      exact (hhere.join (searchBlock_largest f body hf hs.2)).congr hinside
  | foreach indent name type container body =>
      exact (hhere.join (searchBlock_largest f body hf hs.2)).congr hinside
  | foreign g => exact hs.elim

theorem searchBlock_largest (f : Stmt) (body : List Stmt) (hf : StmtComparable f)
    (hbody : BlockComparable body) :
    Largest (fun x => ∃ s ∈ body, Inside x s) (countStmt f) (searchBlock f body) := by
  cases body with
  | nil => exact largest_none.congr fun x => by simp
  | cons s rest =>
      have hfirst := searchStmt_largest f s hf hbody.1
      have hothers := searchBlock_largest f rest hf hbody.2
      exact (hfirst.join hothers).congr fun x => by simp

end

theorem bestMatch_expr_largest (f : Expr) (p : Program) (hf : Comparable f)
    (hp : ProgramComparable p) :
    Largest (fun x => SearchedIn p (.expr x)) (count f) (bestMatch (.expr f) p) := by
  have hbody := searchInBlock_largest f p.statements hf hp.body
  cases hresult : p.result with
  | none =>
      simp only [bestMatch, hresult, bind_pure]
      exact hbody.congr fun x => by simp [SearchedIn, hresult]
  | some e =>
      simp only [bestMatch, hresult]
      exact (hbody.join (search_largest f e hf (hp.result e hresult))).congr fun x => by
        simp [SearchedIn, hresult]

theorem bestMatch_stmt_largest (f : Stmt) (p : Program) (hf : StmtComparable f)
    (hp : ProgramComparable p) :
    Largest (fun x => SearchedIn p (.stmt x)) (countStmt f) (bestMatch (.stmt f) p) :=
  searchBlock_largest f p.statements hf hp.body

theorem comparable_of_mem_args {args : List Expr} (hargs : EachComparable args) :
    ∀ e ∈ args, Comparable e := by
  induction args with
  | nil => exact List.forall_mem_nil _
  | cons e rest ih => exact List.forall_mem_cons.mpr ⟨hargs.1, ih hargs.2⟩

theorem comparable_of_mem_block {body : List Stmt} (hbody : BlockComparable body) :
    ∀ s ∈ body, StmtComparable s := by
  induction body with
  | nil => exact List.forall_mem_nil _
  | cons s rest ih => exact List.forall_mem_cons.mpr ⟨hbody.1, ih hbody.2⟩

theorem comparable_children {e : Expr} (he : Comparable e) : ∀ c ∈ children e, Comparable c := by
  cases e with
  | literal value type => exact List.forall_mem_nil _
  | «variable» name type => exact List.forall_mem_nil _
  | unary op operand => exact List.forall_mem_singleton.mpr he
  | binary op left right =>
      exact List.forall_mem_cons.mpr ⟨he.1, List.forall_mem_singleton.mpr he.2⟩
  | use component receiver args =>
      cases receiver with
      | none => exact comparable_of_mem_args he
      | some receiver => exact List.forall_mem_cons.mpr ⟨he.1, comparable_of_mem_args he.2⟩
  | foreign g => exact he.elim

theorem PartOf.comparable {x e : Expr} (h : PartOf x e) (he : Comparable e) : Comparable x := by
  induction h with
  | self => exact he
  | child hc _ ih => exact ih (comparable_children he _ hc)

theorem comparable_blockOf {s : Stmt} (hs : StmtComparable s) :
    ∀ t ∈ blockOf s, StmtComparable t := by
  cases s with
  | assign indent target value => exact List.forall_mem_nil _
  | call indent function => exact List.forall_mem_nil _
  | branch indent test body => exact comparable_of_mem_block hs.2
  | loop indent head test body => exact comparable_of_mem_block hs.2
  | foreach indent name type container body => exact comparable_of_mem_block hs.2
  | foreign g => exact hs.elim

theorem Inside.comparable {x s : Stmt} (h : Inside x s) (hs : StmtComparable s) :
    StmtComparable x := by
  induction h with
  | self => exact hs
  | nested ht _ ih => exact ih (comparable_blockOf hs _ ht)

theorem comparable_exprsOfTest {test : Test} (htest : TestComparable test) :
    ∀ e ∈ exprsOfTest test, Comparable e := by
  cases test with
  | concrete e => exact List.forall_mem_singleton.mpr htest
  | _ => exact List.forall_mem_nil _

theorem comparable_exprsOf {s : Stmt} (hs : StmtSearchable s) : ∀ e ∈ exprsOf s, Comparable e := by
  cases s with
  | assign indent target value =>
      exact List.forall_mem_cons.mpr ⟨hs.1, List.forall_mem_singleton.mpr hs.2⟩
  | call indent function => exact List.forall_mem_singleton.mpr hs
  | branch indent test body => exact comparable_exprsOfTest hs.1
  | loop indent head test body => exact comparable_exprsOfTest hs.1
  | foreach indent name type container body => exact List.forall_mem_singleton.mpr hs.1
  | foreign g => exact hs.elim

theorem OccursIn.comparable {x : Expr} {s : Stmt} (h : OccursIn x s) (hs : StmtComparable s) :
    Comparable x := by
  obtain ⟨t, ht, e, he, hx⟩ := h
  exact hx.comparable (comparable_exprsOf (searchable_of_comparable t (ht.comparable hs)) e he)

theorem comparable_of_searched_expr {p : Program} (hp : ProgramComparable p) {x : Expr}
    (h : SearchedIn p (.expr x)) : Comparable x := by
  rcases h with ⟨s, hs, hx⟩ | ⟨e, he, hx⟩
  · exact hx.comparable (comparable_of_mem_block hp.body s hs)
  · exact hx.comparable (hp.result e he)

theorem comparable_of_searched_stmt {p : Program} (hp : ProgramComparable p) {x : Stmt}
    (h : SearchedIn p (.stmt x)) : StmtComparable x := by
  obtain ⟨s, hs, hx⟩ := h
  exact hx.comparable (comparable_of_mem_block hp.body s hs)

/-- What a fragment counts at a node; at one of the other sort it counts nothing. -/
def countNode : Node → Node → Except Fault Nat
  | .expr f, .expr e => count f e
  | .stmt f, .stmt s => countStmt f s
  | _, _ => .ok 0

/-- The node is an expression or a statement that can be compared. -/
def NodeComparable : Node → Prop
  | .expr e => Comparable e
  | .stmt s => StmtComparable s
  | .text _ => False
  | .absent => False

/-- A fragment without foreign parts whose compared constants have texts. -/
def NodeSearchable : Node → Prop
  | .expr e => Comparable e
  | .stmt s => StmtSearchable s
  | .text _ => False
  | .absent => False

/-- The weight of a node that can be compared. -/
def sizeOfNode : Node → Nat
  | .expr e => size e
  | .stmt s => sizeOfStmt s
  | _ => 0

variable {f : Node} {p : Program}

theorem searchable_of_nodeComparable (hf : NodeComparable f) : NodeSearchable f := by
  cases f with
  | expr e => exact hf
  | stmt s => exact searchable_of_comparable s hf
  | text _ => exact hf.elim
  | absent => exact hf.elim

theorem weightOfNode_of_searchable (hf : NodeSearchable f) :
    weightOfNode f = .ok (sizeOfNode f) := by
  cases f with
  | expr e => exact weight_eq e hf
  | stmt s => exact weightOfStmt_of_searchable s hf
  | text _ => exact hf.elim
  | absent => exact hf.elim

theorem weightOfNode_eq (hf : NodeComparable f) : weightOfNode f = .ok (sizeOfNode f) :=
  weightOfNode_of_searchable (searchable_of_nodeComparable hf)

theorem sizeOfNode_pos_of_searchable (hf : NodeSearchable f) : 0 < sizeOfNode f := by
  cases f with
  | expr e => exact size_pos hf
  | stmt s => exact size_pos_of_searchable hf
  | text _ => exact hf.elim
  | absent => exact hf.elim

theorem sizeOfNode_pos (hf : NodeComparable f) : 0 < sizeOfNode f :=
  sizeOfNode_pos_of_searchable (searchable_of_nodeComparable hf)

theorem countNode_atMost {x : Node} (hf : NodeComparable f) (hx : NodeComparable x) :
    AtMost (sizeOfNode f) (countNode f x) := by
  cases f with
  | expr e =>
      cases x with
      | expr e' => exact count_atMost e e' hf hx
      | _ => exact atMost_zero _
  | stmt s =>
      cases x with
      | stmt s' => exact countStmt_atMost s s' hf hx
      | _ => exact atMost_zero _
  | text _ => exact hf.elim
  | absent => exact hf.elim

theorem countNode_self (hf : NodeComparable f) : countNode f f = .ok (sizeOfNode f) := by
  cases f with
  | expr e => exact count_self e hf
  | stmt s => exact countStmt_self s hf
  | text _ => exact hf.elim
  | absent => exact hf.elim

theorem comparable_of_searched (hp : ProgramComparable p) {x : Node} (hx : SearchedIn p x) :
    NodeComparable x := by
  cases x with
  | expr e => exact comparable_of_searched_expr hp hx
  | stmt s => exact comparable_of_searched_stmt hp hx
  | text _ => exact hx.elim
  | absent => exact hx.elim

theorem bestMatch_largest (hf : NodeComparable f) (hp : ProgramComparable p) :
    Largest (SearchedIn p) (countNode f) (bestMatch f p) := by
  -- The nodes of the other sort count nothing, so they do not change what is largest.
  cases f with
  | expr e =>
      obtain ⟨n, hn, hall, hreached⟩ := bestMatch_expr_largest e p hf hp
      refine ⟨n, hn, ?_, ?_⟩
      · intro x hx
        cases x with
        | expr e' => exact hall e' hx
        | _ => exact ⟨0, rfl, Nat.zero_le n⟩
      · exact hreached.imp_right fun ⟨e', he', hcount⟩ => ⟨.expr e', he', hcount⟩
  | stmt s =>
      obtain ⟨n, hn, hall, hreached⟩ := bestMatch_stmt_largest s p hf hp
      refine ⟨n, hn, ?_, ?_⟩
      · intro x hx
        cases x with
        | stmt s' => exact hall s' hx
        | _ => exact ⟨0, rfl, Nat.zero_le n⟩
      · exact hreached.imp_right fun ⟨s', hs', hcount⟩ => ⟨.stmt s', hs', hcount⟩
  | text _ => exact hf.elim
  | absent => exact hf.elim

theorem bestMatch_atMost (hf : NodeComparable f) (hp : ProgramComparable p) :
    AtMost (sizeOfNode f) (bestMatch f p) :=
  (bestMatch_largest hf hp).atMost fun _ hx => countNode_atMost hf (comparable_of_searched hp hx)

theorem usefulness_eq {best weight : Nat} (hbest : bestMatch f p = .ok best)
    (hweight : weightOfNode f = .ok weight) :
    usefulness f p = .ok (div (ofInt best) (ofInt weight)) := by
  rw [usefulness, hbest, hweight]
  rfl

end FragmentSynthesis.Proofs.LargestCounts
