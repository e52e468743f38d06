import FragmentSynthesis.Corpora
import FragmentSynthesis.Proofs.Declarations
import FragmentSynthesis.Proofs.MatchCounts
import FragmentSynthesis.Proofs.Quotients

namespace FragmentSynthesis.Proofs.FullMatches

open FragmentSynthesis.Binary64
open FragmentSynthesis.Corpora
open FragmentSynthesis.Expression
open FragmentSynthesis.ExpressionText
open FragmentSynthesis.Faults
open FragmentSynthesis.Matching
open FragmentSynthesis.OrderedMaps
open FragmentSynthesis.Programs
open FragmentSynthesis.Proofs.Declarations
open FragmentSynthesis.Proofs.MatchCounts
open FragmentSynthesis.Proofs.Quotients
open FragmentSynthesis.Statement
open FragmentSynthesis.StatementText
open FragmentSynthesis.Traversal
open FragmentSynthesis.TypeRefs
open FragmentSynthesis.Weight

/-- A search for a fragment among some nodes stays within the weight of the fragment, and reaches it
if the fragment is one of the nodes. -/
def Found {α : Type} (f : α) (weight : Nat) (nodes : List α) (x : Except Fault Nat) : Prop :=
  ∃ n, x = .ok n ∧ n ≤ weight ∧ (f ∈ nodes → n = weight)

section

variable {α : Type} {f : α} {weight : Nat} {xs ys zs : List α} {x y z : Except Fault Nat}

theorem Found.of_atMost (hx : AtMost weight x) : Found f weight [] x := by
  obtain ⟨n, hn, hle⟩ := hx
  exact ⟨n, hn, hle, fun hf => absurd hf List.not_mem_nil⟩

theorem Found.atMost (hx : Found f weight xs x) : AtMost weight x := by
  obtain ⟨n, hn, hle, -⟩ := hx
  exact ⟨n, hn, hle⟩

theorem found_none : Found f weight [] (.ok 0) :=
  .of_atMost (atMost_zero weight)

theorem Found.join (hx : Found f weight xs x) (hy : Found f weight ys y) :
    Found f weight (xs ++ ys) (do let m ← x; let n ← y; return max m n) := by
  obtain ⟨m, rfl, hm, hxs⟩ := hx
  obtain ⟨n, rfl, hn, hys⟩ := hy
  refine ⟨max m n, rfl, Nat.max_le.mpr ⟨hm, hn⟩, ?_⟩
  intro hf
  rcases List.mem_append.mp hf with hf | hf
  · rw [hxs hf]
    exact Nat.max_eq_left hn
  · rw [hys hf]
    exact Nat.max_eq_right hm

theorem Found.join₃ (hx : Found f weight xs x) (hy : Found f weight ys y)
    (hz : Found f weight zs z) :
    Found f weight (xs ++ (ys ++ zs))
      (do let l ← x; let m ← y; let n ← z; return max (max l m) n) := by
  have h := (hx.join hy).join hz
  rw [List.append_assoc] at h
  simpa only [bind_assoc, pure_bind] using h

end

theorem count_found (f e : Expr) (hf : Comparable f) (he : Comparable e) :
    Found f (size f) [e] (count f e) := by
  obtain ⟨n, hn, hle⟩ := count_atMost f e hf he
  refine ⟨n, hn, hle, ?_⟩
  intro hmem
  rw [List.mem_singleton.mp hmem, count_self e he] at hn
  rw [List.mem_singleton.mp hmem]
  exact (Except.ok.inj hn).symm

theorem countStmt_found (f s : Stmt) (hf : StmtComparable f) (hs : StmtComparable s) :
    Found f (sizeOfStmt f) [s] (countStmt f s) := by
  obtain ⟨n, hn, hle⟩ := countStmt_atMost f s hf hs
  refine ⟨n, hn, hle, ?_⟩
  intro hmem
  rw [List.mem_singleton.mp hmem, countStmt_self s hs] at hn
  rw [List.mem_singleton.mp hmem]
  exact (Except.ok.inj hn).symm

/-- Some nodes are listed, and a search for any comparable fragment finds them. -/
structure Searched (nodes : Except Fault (List Expr)) (search : Expr → Except Fault Nat)
    (below : List Expr) : Prop where
  listed : nodes = .ok below
  comparable : ∀ e ∈ below, Comparable e
  found : ∀ f, Comparable f → Found f (size f) below (search f)

mutual

theorem search_searched (e : Expr) (he : Comparable e) :
    ∃ below, Searched (preorder e) (search · e) below := by
  have hhere (f : Expr) (hf : Comparable f) := count_found f e hf he
  cases e with
  | literal value type =>
      exact ⟨[_], rfl, List.forall_mem_singleton.mpr he, hhere⟩
  | «variable» name type =>
      exact ⟨[_], rfl, List.forall_mem_singleton.mpr he, hhere⟩
  | unary op operand =>
      obtain ⟨below, hbelow⟩ := search_searched operand he
      refine ⟨_ :: below, ?_, List.forall_mem_cons.mpr ⟨he, hbelow.comparable⟩, ?_⟩
      · rw [preorder, hbelow.listed]; rfl
      · intro f hf
        exact (hhere f hf).join (hbelow.found f hf)
  | binary op left right =>
      obtain ⟨first, hfirst⟩ := search_searched left he.1
      obtain ⟨second, hsecond⟩ := search_searched right he.2
      refine ⟨.binary op left right :: (first ++ second), ?_, ?_, ?_⟩
      · rw [preorder, hfirst.listed, hsecond.listed]; rfl
      · exact List.forall_mem_cons.mpr
          ⟨he, List.forall_mem_append.mpr ⟨hfirst.comparable, hsecond.comparable⟩⟩
      · intro f hf
        exact (hhere f hf).join₃ (hfirst.found f hf) (hsecond.found f hf)
  | use component receiver args =>
      cases receiver with
      | none =>
          obtain ⟨below, hbelow⟩ := searchEach_searched args he
          refine ⟨_ :: below, ?_, List.forall_mem_cons.mpr ⟨he, hbelow.comparable⟩, ?_⟩
          · rw [preorder, hbelow.listed]; rfl
          · intro f hf
            exact (hhere f hf).join (hbelow.found f hf)
      | some receiver =>
          obtain ⟨first, hfirst⟩ := search_searched receiver he.1
          obtain ⟨below, hbelow⟩ := searchEach_searched args he.2
          refine ⟨.use component (some receiver) args :: (first ++ below), ?_, ?_, ?_⟩
          · rw [preorder, hfirst.listed, hbelow.listed]; rfl
          · exact List.forall_mem_cons.mpr
              ⟨he, List.forall_mem_append.mpr ⟨hfirst.comparable, hbelow.comparable⟩⟩
          · intro f hf
            exact (hhere f hf).join₃ (hfirst.found f hf) (hbelow.found f hf)
  | foreign f => exact he.elim

theorem searchEach_searched (args : List Expr) (hargs : EachComparable args) :
    ∃ below, Searched (preorderEach args) (searchEach · args) below := by
  cases args with
  | nil => exact ⟨[], rfl, List.forall_mem_nil _, fun f _ => found_none⟩
  | cons e rest =>
      obtain ⟨first, hfirst⟩ := search_searched e hargs.1
      obtain ⟨others, hothers⟩ := searchEach_searched rest hargs.2
      refine ⟨first ++ others, ?_, ?_, ?_⟩
      · rw [preorderEach, hfirst.listed, hothers.listed]; rfl
      · exact List.forall_mem_append.mpr ⟨hfirst.comparable, hothers.comparable⟩
      · intro f hf
        exact (hfirst.found f hf).join (hothers.found f hf)

end

theorem search_atMost (f e : Expr) (hf : Comparable f) (he : Comparable e) :
    AtMost (size f) (search f e) := by
  obtain ⟨below, hbelow⟩ := search_searched e he
  exact (hbelow.found f hf).atMost

theorem searchTest_atMost (f : Expr) (test : Test) (hf : Comparable f)
    (htest : TestComparable test) : AtMost (size f) (searchTest f test) := by
  cases test with
  | concrete e => exact search_atMost f e hf htest
  | angelic remembered => exact atMost_zero _
  | blank => exact htest.elim
  | unknown => exact htest.elim

/-- A harvest is taken, and searches for any comparable fragment find what it holds. -/
structure Harvested (harvest : Except Fault Harvest) (inExprs : Expr → Except Fault Nat)
    (inStmts : Stmt → Except Fault Nat) (h : Harvest) : Prop where
  taken : harvest = .ok h
  exprsComparable : ∀ e ∈ h.expressions, Comparable e
  stmtsComparable : ∀ s ∈ h.statements, StmtComparable s
  foundExpr : ∀ f, Comparable f → Found f (size f) h.expressions (inExprs f)
  foundStmt : ∀ f, StmtComparable f → Found f (sizeOfStmt f) h.statements (inStmts f)

/-- A statement with a block is harvested with its block; of its other parts only the bound
matters. -/
theorem Harvested.around {harvest : Except Fault Harvest} {inExprs part : Expr → Except Fault Nat}
    {inStmts : Stmt → Except Fault Nat} {h : Harvest} (hbody : Harvested harvest inExprs inStmts h)
    {s : Stmt} (hs : StmtComparable s)
    (hpart : ∀ f, Comparable f → AtMost (size f) (part f)) :
    Harvested (do let below ← harvest; return Harvest.append ⟨[s], []⟩ below)
      (fun f => do let first ← part f; let below ← inExprs f; return max first below)
      (fun f => do let here ← countStmt f s; let below ← inStmts f; return max here below)
      (Harvest.append ⟨[s], []⟩ h) where
  taken := by rw [hbody.taken]; rfl
  exprsComparable := hbody.exprsComparable
  stmtsComparable := List.forall_mem_cons.mpr ⟨hs, hbody.stmtsComparable⟩
  foundExpr f hf := (Found.of_atMost (hpart f hf)).join (hbody.foundExpr f hf)
  foundStmt f hf := (countStmt_found f s hf hs).join (hbody.foundStmt f hf)

mutual

theorem harvestStmt_harvested (s : Stmt) (hs : StmtComparable s) :
    ∃ h, Harvested (harvestStmt s) (searchInStmt · s) (searchStmt · s) h := by
  have hhere (f : Stmt) (hf : StmtComparable f) := countStmt_found f s hf hs
  cases s with
  | assign indent target value =>
      obtain ⟨below, hbelow⟩ := search_searched value hs.2
      refine ⟨⟨[_], below⟩, ?_, hbelow.comparable, List.forall_mem_singleton.mpr hs, ?_, hhere⟩
      · rw [harvestStmt, hbelow.listed]; rfl
      · intro f hf
        have htarget := search_atMost f target hf (comparable_of_isVariable hs.1)
        exact (Found.of_atMost htarget).join (hbelow.found f hf)
  | call indent function =>
      obtain ⟨below, hbelow⟩ := search_searched function hs
      refine ⟨⟨[_], below⟩, ?_, hbelow.comparable, List.forall_mem_singleton.mpr hs,
        hbelow.found, hhere⟩
      rw [harvestStmt, hbelow.listed]; rfl
  | branch indent test body =>
      obtain ⟨h, hbody⟩ := harvestBlock_harvested body hs.2
      exact ⟨_, hbody.around hs fun f hf => searchTest_atMost f test hf hs.1⟩
  | loop indent head test body =>
      obtain ⟨h, hbody⟩ := harvestBlock_harvested body hs.2
      exact ⟨_, hbody.around hs fun f hf => searchTest_atMost f test hf hs.1⟩
  | foreach indent name type container body =>
      obtain ⟨h, hbody⟩ := harvestBlock_harvested body hs.2
      exact ⟨_, hbody.around hs fun f hf => search_atMost f container hf hs.1⟩
  | foreign f => exact hs.elim

theorem harvestBlock_harvested (body : List Stmt) (hbody : BlockComparable body) :
    ∃ h, Harvested (harvestBlock body) (searchInBlock · body) (searchBlock · body) h := by
  cases body with
  | nil =>
      exact ⟨⟨[], []⟩, rfl, List.forall_mem_nil _, List.forall_mem_nil _, fun _ _ => found_none,
        fun _ _ => found_none⟩
  | cons s rest =>
      obtain ⟨first, hfirst⟩ := harvestStmt_harvested s hbody.1
      obtain ⟨others, hothers⟩ := harvestBlock_harvested rest hbody.2
      refine ⟨first.append others, ?_, ?_, ?_, ?_, ?_⟩
      · rw [harvestBlock, hfirst.taken, hothers.taken]; rfl
      · exact List.forall_mem_append.mpr ⟨hfirst.exprsComparable, hothers.exprsComparable⟩
      · exact List.forall_mem_append.mpr ⟨hfirst.stmtsComparable, hothers.stmtsComparable⟩
      · intro f hf
        exact (hfirst.foundExpr f hf).join (hothers.foundExpr f hf)
      · intro f hf
        exact (hfirst.foundStmt f hf).join (hothers.foundStmt f hf)

end

/-- Statements and result are comparable. -/
structure ProgramComparable (p : Program) : Prop where
  body : BlockComparable p.statements
  result : ∀ e ∈ p.result, Comparable e

theorem fragments_harvested (p : Program) (hp : ProgramComparable p) :
    ∃ h, Harvested (fragments p) (fun f => bestMatch (.expr f) p) (fun f => bestMatch (.stmt f) p)
      h := by
  obtain ⟨h, hbody⟩ := harvestBlock_harvested p.statements hp.body
  cases hresult : p.result with
  | none =>
      refine ⟨h, ?_, hbody.exprsComparable, hbody.stmtsComparable, ?_, hbody.foundStmt⟩
      · rw [fragments, hbody.taken, hresult]; rfl
      · intro f hf
        simpa only [bestMatch, hresult, bind_pure] using hbody.foundExpr f hf
  | some e =>
      have he := hp.result e hresult
      obtain ⟨below, hbelow⟩ := search_searched e he
      refine ⟨h.append ⟨[], below⟩, ?_, ?_, ?_, ?_, ?_⟩
      · rw [fragments, hbody.taken, hresult]
        exact congrArg (Except.map fun below => h.append ⟨[], below⟩) hbelow.listed
      · exact List.forall_mem_append.mpr ⟨hbody.exprsComparable, hbelow.comparable⟩
      · rw [Harvest.append, List.append_nil]
        exact hbody.stmtsComparable
      · intro f hf
        simp only [bestMatch, hresult]
        exact (hbody.foundExpr f hf).join (hbelow.found f hf)
      · rw [Harvest.append, List.append_nil]
        exact hbody.foundStmt

/-- All fragments that a corpus keeps were harvested. -/
structure Within (h : Harvest) (c : Corpus) : Prop where
  expressions : ∀ e ∈ c.expressions.values.flatten, e ∈ h.expressions
  statements : ∀ s ∈ c.statements, s ∈ h.statements

variable {h : Harvest} {c : Corpus}

theorem Within.addStatement (hc : Within h c) (key : String) {s : Stmt} (hs : s ∈ h.statements) :
    Within h (c.addStatement key s) := by
  unfold Corpus.addStatement
  split
  · exact ⟨hc.expressions, hc.statements⟩
  · exact ⟨hc.expressions,
      List.forall_mem_append.mpr ⟨hc.statements, List.forall_mem_singleton.mpr hs⟩⟩

theorem Within.addExpression (hc : Within h c) (key : String) {e : Expr}
    (he : e ∈ h.expressions) : Within h (c.addExpression key e) := by
  unfold Corpus.addExpression
  split
  · exact ⟨hc.expressions, hc.statements⟩
  · refine ⟨?_, hc.statements⟩
    intro x hx
    have hx := (perm_flatten_alter c.expressions e.type.normal e).mem_iff.mp hx
    rcases List.mem_append.mp hx with hx | hx
    · exact hc.expressions x hx
    · exact List.mem_singleton.mp hx ▸ he

theorem Within.addStatements (hc : Within h c) {ss : List Stmt}
    (hss : ∀ s ∈ ss, s ∈ h.statements) : Within h (c.addStatements ss).1 := by
  induction ss generalizing c with
  | nil => exact hc
  | cons s rest ih =>
      obtain ⟨hs, hrest⟩ := List.forall_mem_cons.mp hss
      unfold Corpus.addStatements
      split
      · exact ih (hc.addStatement _ hs) hrest
      · exact hc

theorem Within.addExpressions (hc : Within h c) {es : List Expr}
    (hes : ∀ e ∈ es, e ∈ h.expressions) : Within h (c.addExpressions es).1 := by
  induction es generalizing c with
  | nil => exact hc
  | cons e rest ih =>
      obtain ⟨he, hrest⟩ := List.forall_mem_cons.mp hes
      unfold Corpus.addExpressions
      split
      · split
        · exact ih (hc.addExpression _ he) hrest
        · exact ⟨hc.expressions, hc.statements⟩
      · exact hc

theorem Within.addHarvest (hc : Within h c) : Within h (c.addHarvest h).1 := by
  have hstatements : Within h (c.addStatements h.statements).1 := hc.addStatements fun _ hs => hs
  unfold Corpus.addHarvest
  split
  · rename_i d hd
    rw [hd] at hstatements
    exact hstatements.addExpressions fun _ he => he
  · rename_i d fault hd
    rw [hd] at hstatements
    exact hstatements

theorem Within.keep (hc : Within h c) {copy : Program} (hcopy : fragments copy = .ok h) :
    Within h (c.keep copy).1 := by
  have hkept : Within h { c with programs := c.programs ++ [copy] } :=
    ⟨hc.expressions, hc.statements⟩
  have hall := hkept.addHarvest
  unfold Corpus.keep
  simp only [hcopy]
  split
  · rename_i d hd
    rwa [hd] at hall
  · rename_i d fault hd
    rwa [hd] at hall

theorem fragments_copy {p copy : Program} (h : p.copy = .ok copy) :
    fragments copy = fragments p := by
  unfold Program.copy at h
  split at h
  · cases h
    rfl
  · cases h

/-- Whether or not all goes well, what is kept of a program is from its harvest. -/
theorem Within.remember (hc : Within h c) {p : Program} (hp : fragments p = .ok h) :
    Within h (c.remember p).1 := by
  unfold Corpus.remember
  split
  · exact hc
  · rename_i key _
    have hseen : Within h { c with programKeys := c.programKeys ++ [key] } :=
      ⟨hc.expressions, hc.statements⟩
    split
    · exact hc
    · split
      · exact hseen
      · rename_i copy hcopy
        exact hseen.keep ((fragments_copy hcopy).trans hp)

theorem within_empty (h : Harvest) : Within h Corpus.empty :=
  ⟨List.forall_mem_nil _, List.forall_mem_nil _⟩

/-- The best match of a fragment in a program is the weight of the fragment, so that its usefulness
is one as long as a double can hold the weight. -/
def MatchesInFull (p : Program) (f : Node) : Prop :=
  ∃ weight, 0 < weight ∧ weightOfNode f = .ok weight ∧ bestMatch f p = .ok weight ∧
    ∀ x, ofInt? weight = some x → usefulness f p = .ok one

theorem matchesInFull_of_best {p : Program} {f : Node} {weight : Nat} (hpos : 0 < weight)
    (hweight : weightOfNode f = .ok weight) (hbest : bestMatch f p = .ok weight) :
    MatchesInFull p f := by
  refine ⟨weight, hpos, hweight, hbest, ?_⟩
  intro x hx
  rw [usefulness, hbest, hweight, ← div_ofInt_self hpos hx]
  rfl

/-- Every fragment harvested from a program matches it in full, and so does every fragment that a
corpus keeps of it. -/
theorem harvest_matchesInFull (p : Program) (hp : ProgramComparable p) :
    ∃ h, fragments p = .ok h ∧ (∀ e ∈ h.expressions, MatchesInFull p (.expr e)) ∧
      (∀ s ∈ h.statements, MatchesInFull p (.stmt s)) ∧
      ∀ f ∈ (Corpus.empty.remember p).1.all, MatchesInFull p f := by
  obtain ⟨h, hh⟩ := fragments_harvested p hp
  have hexprs : ∀ e ∈ h.expressions, MatchesInFull p (.expr e) := by
    intro e he
    have hcomparable := hh.exprsComparable e he
    obtain ⟨n, hn, -, hfull⟩ := hh.foundExpr e hcomparable
    rw [hfull he] at hn
    exact matchesInFull_of_best (size_pos hcomparable) (weight_eq e hcomparable) hn
  have hstmts : ∀ s ∈ h.statements, MatchesInFull p (.stmt s) := by
    intro s hs
    have hcomparable := hh.stmtsComparable s hs
    obtain ⟨n, hn, -, hfull⟩ := hh.foundStmt s hcomparable
    rw [hfull hs] at hn
    exact matchesInFull_of_best (sizeOfStmt_pos hcomparable) (weightOfStmt_eq s hcomparable) hn
  refine ⟨h, hh.taken, hexprs, hstmts, ?_⟩
  intro f hf
  have hwithin := (within_empty h).remember hh.taken
  rcases List.mem_append.mp hf with hf | hf
  · obtain ⟨e, he, rfl⟩ := List.mem_map.mp hf
    exact hexprs e (hwithin.expressions e he)
  · obtain ⟨s, hs, rfl⟩ := List.mem_map.mp hf
    exact hstmts s (hwithin.statements s hs)

/-- Counts elements in a branch that is still open. -/
def tally : Program :=
  let n := Expr.variable "n" "int"
  { Program.new "tally" "int" (OrderedMap.ofList [("xs", "int[]")]) with
    statements := [.assign 1 n (.literal (.int 0) "int"),
      .foreach 1 "x" "int" (.variable "xs" "int[]")
        [.branch 2 (.angelic none) [.assign 3 n (.binary .add n (.literal (.int 1) "int"))]]]
    result := some n }

theorem harvest_matchesInFull_tally :
    let n := Expr.variable "n" "int"
    let next := Expr.binary .add n (.literal (.int 1) "int")
    let counted := Stmt.branch 2 (.angelic none) [.assign 3 n next]
    ProgramComparable tally ∧
      (∃ h, fragments tally = .ok h ∧ next ∈ h.expressions ∧ counted ∈ h.statements) ∧
      (weightOfNode (.expr next) = .ok 3 ∧ MatchesInFull tally (.expr next)) ∧
      (weightOfNode (.stmt counted) = .ok 6 ∧ MatchesInFull tally (.stmt counted)) ∧
      ∀ f ∈ (Corpus.empty.remember tally).1.all, MatchesInFull tally f := by
  intro n next counted
  have hzero : Comparable (.literal (.int 0) "int") := ⟨"0", by decide⟩
  have hone : Comparable (.literal (.int 1) "int") := ⟨"1", by decide⟩
  have hbody : BlockComparable tally.statements :=
    ⟨⟨trivial, hzero⟩, ⟨trivial, ⟨trivial, ⟨trivial, trivial, hone⟩, trivial⟩, trivial⟩, trivial⟩
  have hp : ProgramComparable tally := by
    refine ⟨hbody, ?_⟩
    intro e he
    cases he
    exact trivial
  have hfragments : fragments tally = .ok
      { statements := tally.statements ++ [counted, .assign 3 n next]
        expressions := [.literal (.int 0) "int", next, n, .literal (.int 1) "int", n] } := rfl
  obtain ⟨h, hh, hexprs, hstmts, hkept⟩ := harvest_matchesInFull tally hp
  obtain rfl := Except.ok.inj (hh.symm.trans hfragments)
  have hnext : next ∈ [.literal (.int 0) "int", next, n, .literal (.int 1) "int", n] :=
    List.mem_cons_of_mem _ List.mem_cons_self
  have hcounted : counted ∈ tally.statements ++ [counted, .assign 3 n next] :=
    List.mem_append_right _ List.mem_cons_self
  exact ⟨hp, ⟨_, hh, hnext, hcounted⟩, ⟨rfl, hexprs next hnext⟩, ⟨rfl, hstmts counted hcounted⟩,
    hkept⟩

end FragmentSynthesis.Proofs.FullMatches
