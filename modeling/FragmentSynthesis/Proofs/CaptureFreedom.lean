import FragmentSynthesis.Proofs.Replacements

namespace FragmentSynthesis.Proofs.CaptureFreedom

open FragmentSynthesis.Expression
open FragmentSynthesis.OrderedMaps
open FragmentSynthesis.Programs
open FragmentSynthesis.Proofs.Declarations
open FragmentSynthesis.Proofs.KnownFragments
open FragmentSynthesis.Proofs.Mentions
open FragmentSynthesis.Proofs.Replacements
open FragmentSynthesis.Proofs.SpliceSteps
open FragmentSynthesis.Scopes
open FragmentSynthesis.Splicing
open FragmentSynthesis.Statement

/-- A mention, and the names that the loops around it bind, from the innermost loop outwards. -/
structure Site where
  mention : Mention
  enclosing : List String

def sitesIn (enclosing : List String) (ms : List Mention) : List Site :=
  ms.map fun m => ⟨m, enclosing⟩

mutual

/-- A counter is bound in the test and the body of its loop, an element in the body only. -/
def sitesInStmt (enclosing : List String) : Stmt → List Site
  | .assign _ target value => sitesIn enclosing (mentions target ++ mentions value)
  | .call _ function => sitesIn enclosing (mentions function)
  | .branch _ test body => sitesIn enclosing (mentionsInTest test) ++ sitesInBlock enclosing body
  | .loop _ head test body =>
      let inner := boundNames (mentionsInHead head) ++ enclosing
      sitesIn enclosing (mentionsInHead head)
        ++ (sitesIn inner (mentionsInTest test) ++ sitesInBlock inner body)
  | .foreach _ name type container body =>
      ⟨⟨.element type, name⟩, enclosing⟩
        :: (sitesIn enclosing (mentions container) ++ sitesInBlock (name :: enclosing) body)
  | .foreign _ => []

def sitesInBlock (enclosing : List String) : List Stmt → List Site
  | [] => []
  | s :: rest => sitesInStmt enclosing s ++ sitesInBlock enclosing rest

end

/-- The sites of a fragment in the order of its mentions. -/
def sites : Node → List Site
  | .expr e => sitesIn [] (mentions e)
  | .stmt s => sitesInStmt [] s
  | .text _ => []
  | .absent => []

@[simp] theorem map_mention_sitesIn (enclosing : List String) (ms : List Mention) :
    (sitesIn enclosing ms).map Site.mention = ms := by
  rw [sitesIn, List.map_map]
  exact List.map_id ms

mutual

theorem map_mention_sitesInStmt (enclosing : List String) (s : Stmt) :
    (sitesInStmt enclosing s).map Site.mention = mentionsInStmt s := by
  cases s with
  | assign indent target value => exact map_mention_sitesIn enclosing _
  | call indent function => exact map_mention_sitesIn enclosing _
  | branch indent test body =>
      simp only [sitesInStmt, mentionsInStmt, List.map_append, map_mention_sitesIn,
        map_mention_sitesInBlock _ body]
  | loop indent head test body =>
      simp only [sitesInStmt, mentionsInStmt, List.map_append, map_mention_sitesIn,
        map_mention_sitesInBlock _ body]
  | foreach indent name type container body =>
      simp only [sitesInStmt, mentionsInStmt, List.map_cons, List.map_append, map_mention_sitesIn,
        map_mention_sitesInBlock _ body]
  | foreign f => rfl

theorem map_mention_sitesInBlock (enclosing : List String) (body : List Stmt) :
    (sitesInBlock enclosing body).map Site.mention = mentionsInBlock body := by
  cases body with
  | nil => rfl
  | cons s rest =>
      simp only [sitesInBlock, mentionsInBlock, List.map_append,
        map_mention_sitesInStmt enclosing s, map_mention_sitesInBlock enclosing rest]

end

theorem map_mention_sites (n : Node) : (sites n).map Site.mention = mentionsInNode n := by
  cases n with
  | expr e => exact map_mention_sitesIn [] _
  | stmt s => exact map_mention_sitesInStmt [] s
  | text s => rfl
  | absent => rfl

theorem enclosing_eq_of_mem_sitesIn {enclosing : List String} {ms : List Mention} {o : Site}
    (h : o ∈ sitesIn enclosing ms) : o.enclosing = enclosing := by
  obtain ⟨m, -, rfl⟩ := List.mem_map.mp h
  rfl

mutual

theorem subset_enclosing_of_mem_stmt {enclosing : List String} (s : Stmt) {o : Site}
    (h : o ∈ sitesInStmt enclosing s) : enclosing ⊆ o.enclosing := by
  cases s with
  | assign indent target value => exact (enclosing_eq_of_mem_sitesIn h).symm ▸ List.Subset.refl _
  | call indent function => exact (enclosing_eq_of_mem_sitesIn h).symm ▸ List.Subset.refl _
  | branch indent test body =>
      rcases List.mem_append.mp h with h | h
      · exact (enclosing_eq_of_mem_sitesIn h).symm ▸ List.Subset.refl _
      · exact subset_enclosing_of_mem_block body h
  | loop indent head test body =>
      have hinner := List.subset_append_right (boundNames (mentionsInHead head)) enclosing
      rcases List.mem_append.mp h with h | h
      · exact (enclosing_eq_of_mem_sitesIn h).symm ▸ List.Subset.refl _
      rcases List.mem_append.mp h with h | h
      · exact (enclosing_eq_of_mem_sitesIn h).symm ▸ hinner
      · exact List.Subset.trans hinner (subset_enclosing_of_mem_block body h)
  | foreach indent name type container body =>
      rcases List.mem_cons.mp h with rfl | h
      · exact List.Subset.refl _
      rcases List.mem_append.mp h with h | h
      · exact (enclosing_eq_of_mem_sitesIn h).symm ▸ List.Subset.refl _
      · exact List.Subset.trans (List.subset_cons_self name enclosing)
          (subset_enclosing_of_mem_block body h)
  | foreign f => cases h

theorem subset_enclosing_of_mem_block {enclosing : List String} (body : List Stmt) {o : Site}
    (h : o ∈ sitesInBlock enclosing body) : enclosing ⊆ o.enclosing := by
  cases body with
  | nil => cases h
  | cons s rest =>
      rcases List.mem_append.mp h with h | h
      · exact subset_enclosing_of_mem_stmt s h
      · exact subset_enclosing_of_mem_block rest h

end

/-- No site binds a name that a loop around it binds. -/
def Unshadowed (os : List Site) : Prop :=
  ∀ o ∈ os, o.mention.role.isBinder = true → o.mention.name ∉ o.enclosing

theorem Unshadowed.left {os others : List Site} (h : Unshadowed (os ++ others)) : Unshadowed os :=
  fun o ho => h o (List.mem_append_left others ho)

theorem Unshadowed.right {os others : List Site} (h : Unshadowed (os ++ others)) :
    Unshadowed others :=
  fun o ho => h o (List.mem_append_right os ho)

theorem unshadowed_of_subset {enclosing : List String} {os : List Site} (h : Unshadowed os)
    (hos : ∀ o ∈ os, enclosing ⊆ o.enclosing) :
    Unshadowed (sitesIn enclosing (os.map Site.mention)) := by
  intro o ho hrole hname
  obtain ⟨m, hm, rfl⟩ := List.mem_map.mp ho
  obtain ⟨o, ho', rfl⟩ := List.mem_map.mp hm
  exact h o ho' hrole (hos o ho' hname)

theorem unshadowed_of_variables {enclosing : List String} {ms : List Mention}
    (h : ∀ m ∈ ms, m.role.isBinder = false) : Unshadowed (sitesIn enclosing ms) := by
  intro o ho hrole
  obtain ⟨m, hm, rfl⟩ := List.mem_map.mp ho
  cases hrole.symm.trans (h m hm)

theorem unshadowed_mentionsInStmt {enclosing : List String} {x : Stmt}
    (h : Unshadowed (sitesInStmt enclosing x)) :
    Unshadowed (sitesIn enclosing (mentionsInStmt x)) := by
  rw [← map_mention_sitesInStmt enclosing x]
  exact unshadowed_of_subset h fun o ho => subset_enclosing_of_mem_stmt x ho

/-- The names that the loops around bind now are the replacements of those that they bound. -/
def Follows (renames : OrderedMap String String) (enclosing enclosing' : List String) : Prop :=
  List.Forall₂ (fun name replacement => renames.get? name = some replacement) enclosing enclosing'

/-- A name that the loop so many levels outwards bound is now the one that this loop binds. -/
def StaysBound (o o' : Site) : Prop :=
  ∀ level : Nat, o.enclosing[level]? = some o.mention.name →
    o'.enclosing[level]? = some o'.mention.name

variable {choose : Chooser} {s t : Splice} {m m' : Mention} {ms ms' : List Mention}
  {enclosing enclosing' : List String}

theorem Follows.get? {renames : OrderedMap String String} (h : Follows renames enclosing enclosing')
    {level : Nat} {name : String} (hname : enclosing[level]? = some name) :
    ∃ replacement, enclosing'[level]? = some replacement ∧
      renames.get? name = some replacement := by
  induction h generalizing level with
  | nil => cases hname
  | cons hfirst hrest ih =>
      cases level with
      | zero =>
          cases hname
          exact ⟨_, rfl, hfirst⟩
      | succ level => exact ih hname

theorem Follows.step (hs : Follows s.renames enclosing enclosing') (h : Step choose s m m' t)
    (hm : m.role.isBinder = true → m.name ∉ enclosing) :
    Follows t.renames enclosing enclosing' ∧ StaysBound ⟨m, enclosing⟩ ⟨m', enclosing'⟩ := by
  constructor
  · refine List.Forall₂.imp ?_ ((List.forall₂_and_left _ _).mpr ⟨fun _ h => h, hs⟩)
    rintro name replacement ⟨hname, hget⟩
    exact (get?_of_step h hget fun hrole heq => hm hrole (heq ▸ hname)).1
  · intro level hlevel
    obtain ⟨replacement, hlevel', hget⟩ := hs.get? hlevel
    have hname : m.name ∈ enclosing := List.mem_of_getElem? hlevel
    rw [(get?_of_step h hget fun hrole _ => hm hrole hname).2 rfl]
    exact hlevel'

theorem Follows.steps (hs : Follows s.renames enclosing enclosing') (h : Steps choose s ms ms' t)
    (hms : Unshadowed (sitesIn enclosing ms)) :
    Follows t.renames enclosing enclosing' ∧
      List.Forall₂ StaysBound (sitesIn enclosing ms) (sitesIn enclosing' ms') := by
  induction h with
  | nil s => exact ⟨hs, .nil⟩
  | @cons s t u m m' ms ms' first rest ih =>
      obtain ⟨hm, hrest⟩ := List.forall_mem_cons.mp hms
      obtain ⟨ht, hfirst⟩ := hs.step first hm
      obtain ⟨hu, hall⟩ := ih ht hrest
      exact ⟨hu, .cons hfirst hall⟩

theorem Follows.bind (hs : Follows s.renames enclosing enclosing') (h : Step choose s m m' t)
    (hrole : m.role.isBinder = true) (hm : m.name ∉ enclosing) :
    Follows t.renames (m.name :: enclosing) (m'.name :: enclosing') :=
  .cons (get?_of_binder h hrole) (hs.step h fun _ => hm).1

theorem Follows.head (hs : Follows s.renames enclosing enclosing') (head : LoopHead)
    (hfault : s.fault = none) (hos : Unshadowed (sitesIn enclosing (mentionsInHead head))) :
    Follows ((spliceHead head).run s).2.renames (boundNames (mentionsInHead head) ++ enclosing)
        (boundNames (mentionsInHead ((spliceHead head).run s).1) ++ enclosing') ∧
      List.Forall₂ StaysBound (sitesIn enclosing (mentionsInHead head))
        (sitesIn enclosing' (mentionsInHead ((spliceHead head).run s).1)) := by
  cases head with
  | counting counter declared =>
      have hcounter := hos _ List.mem_cons_self
      -- A binder asks nothing of the chooser, so that any will do.
      have hbind := bindCounter_step (fun _ _ => counter) s hfault counter declared
      exact ⟨hs.bind hbind rfl (hcounter rfl), .cons (hs.step hbind hcounter).2 .nil⟩
  | testing counter => exact ⟨hs, .nil⟩

mutual

theorem staysBound_stmt (x : Stmt) (hx : x.isKnown = true) (s : Splice) (hfault : s.fault = none)
    {enclosing enclosing' : List String} (hs : Follows s.renames enclosing enclosing')
    (hos : Unshadowed (sitesInStmt enclosing x)) :
    List.Forall₂ StaysBound (sitesInStmt enclosing x)
      (sitesInStmt enclosing' ((spliceStmt choose x).run s).1) := by
  cases x with
  | assign indent target value =>
      have hsteps := (spliceStmt_inSteps choose (.assign indent target value) hx s hfault).1
      exact (hs.steps hsteps hos).2
  | call indent function =>
      exact (hs.steps (spliceExpr_inSteps choose function hx s hfault).1 hos).2
  | branch indent test body =>
      obtain ⟨htest, hbody⟩ := Bool.and_eq_true_iff.mp hx
      have hsteps := (spliceTest_inSteps choose test htest s hfault).1
      obtain ⟨hs', hfirst⟩ := hs.steps hsteps hos.left
      exact List.rel_append hfirst
        (staysBound_block body hbody _ (hsteps.fault_eq.trans hfault) hs' hos.right)
  | loop indent head test body =>
      obtain ⟨htest, hbody⟩ := Bool.and_eq_true_iff.mp hx
      have hhead := (spliceHead_inSteps choose head s hfault).1
      obtain ⟨hinner, hfirst⟩ := Follows.head hs head hfault hos.left
      have hfault' := hhead.fault_eq.trans hfault
      have hsteps := (spliceTest_inSteps choose test htest _ hfault').1
      obtain ⟨hs', hsecond⟩ := hinner.steps hsteps hos.right.left
      exact List.rel_append hfirst (List.rel_append hsecond
        (staysBound_block body hbody _ (hsteps.fault_eq.trans hfault') hs' hos.right.right))
  | foreach indent name type container body =>
      obtain ⟨hcontainer, hbody⟩ := Bool.and_eq_true_iff.mp hx
      obtain ⟨hname, hos⟩ := List.forall_mem_cons.mp hos
      have hbind := bindElement_step choose s hfault name type
      have hfault' := hbind.fault_eq.trans hfault
      have hsteps := (spliceExpr_inSteps choose container hcontainer _ hfault').1
      -- The container stands outside of the loop that binds the name.
      obtain ⟨ht, hfirst⟩ := hs.step hbind hname
      obtain ⟨-, hsecond⟩ := ht.steps hsteps (Unshadowed.left hos)
      obtain ⟨hinner, -⟩ := (hs.bind hbind rfl (hname rfl)).steps hsteps
        (unshadowed_of_variables (isBinder_mentions container))
      exact .cons hfirst (List.rel_append hsecond
        (staysBound_block body hbody _ (hsteps.fault_eq.trans hfault') hinner
          (Unshadowed.right hos)))
  | foreign f => cases hx

theorem staysBound_block (body : List Stmt) (hbody : blockKnown body = true) (s : Splice)
    (hfault : s.fault = none) {enclosing enclosing' : List String}
    (hs : Follows s.renames enclosing enclosing') (hos : Unshadowed (sitesInBlock enclosing body)) :
    List.Forall₂ StaysBound (sitesInBlock enclosing body)
      (sitesInBlock enclosing' ((spliceBlock choose body).run s).1) := by
  cases body with
  | nil => exact .nil
  | cons x rest =>
      obtain ⟨hx, hrest⟩ := Bool.and_eq_true_iff.mp hbody
      have hsteps := (spliceStmt_inSteps choose x hx s hfault).1
      obtain ⟨hs', -⟩ := hs.steps hsteps (unshadowed_mentionsInStmt hos.left)
      exact List.rel_append (staysBound_stmt x hx s hfault hs hos.left)
        (staysBound_block rest hrest _ (hsteps.fault_eq.trans hfault) hs' hos.right)

end

theorem staysBound_node (choose : Chooser) (n : Node) (hn : nodeKnown n = true) (s : Splice)
    (hfault : s.fault = none) (hos : Unshadowed (sites n)) :
    List.Forall₂ StaysBound (sites n) (sites ((spliceNode choose n).run s).1) := by
  cases n with
  | expr e => exact (Follows.steps .nil (spliceExpr_inSteps choose e hn s hfault).1 hos).2
  | stmt x => exact staysBound_stmt x hn s hfault .nil hos
  | text text => cases hn
  | absent => cases hn

theorem notMem_boundNames_of_source (h : Steps choose s ms ms' t) {role : Role} {name : String}
    (hsource : Source s.scope t.scope role name) (hrole : role.isBinder = false) :
    name ∉ boundNames ms' := by
  intro hbound
  obtain ⟨b, hb, hb', rfl⟩ := mem_boundNames.mp hbound
  have hmem : b ∈ bindersOf ms' := mem_bindersOf.mpr ⟨hb, hb'⟩
  rcases hsource with ⟨-, hparameter⟩ | ⟨hfree, hholds⟩
  · exact binder_free h hmem (mem_takenNames_of_parameter hparameter)
  · obtain ⟨ds, hds, -⟩ := declares_of_steps h
    have heq := hds.holds_unique hholds (binder_holds h hmem) rfl hfree
    rw [← congrArg Mention.role heq] at hb'
    cases hb'.symm.trans hrole

theorem declared_of_source (h : Steps choose s ms ms' t) (htype : OneType ms) (hm : m ∈ ms)
    (hfree : m.name ∉ boundNames ms)
    {replacement : String} (hsource : SourceAmong s.scope t.scope ms m.name replacement) :
    replacement ∉ boundNames ms' ∧
      (s.scope.parameters.get? replacement = some m.role.type ∨
        replacement ∉ s.scope.takenNames ∧
          t.scope.locals.get? replacement = some m.role.type) := by
  obtain ⟨⟨role, name⟩, ho, rfl, hsource⟩ := hsource
  have hrole : role.isBinder = false := by
    by_contra hbinder
    exact hfree (mem_boundNames.mpr ⟨_, ho, Bool.of_not_eq_false hbinder, rfl⟩)
  refine ⟨notMem_boundNames_of_source h hsource hrole, ?_⟩
  rw [← htype _ ho m hm rfl]
  rcases hsource with ⟨-, hparameter⟩ | ⟨hnew, hholds⟩
  · exact .inl hparameter
  · cases role with
    | «variable» type => exact .inr ⟨hnew, hholds⟩
    | counter inHeader => cases hrole
    | element type => cases hrole

/-- Each name of a fragment has one type, no loop shadows the name of a loop around it, and a
variable whose name some loop binds stands inside such a loop. -/
structure WellNamed (n : Node) : Prop where
  oneType : OneType (mentionsInNode n)
  unshadowed : Unshadowed (sites n)
  covered : ∀ o ∈ sites n, o.mention.role.isBinder = false →
    o.mention.name ∈ boundNames (mentionsInNode n) → o.mention.name ∈ o.enclosing

/-- What a splice makes of a site. What a loop around binds stays bound by that loop. A binder gets
a name that was free and is now declared in its place. A variable that is not bound names a
parameter or field of its type, or a local that was free and is now declared with its type, and no
loop has come to bind it. -/
structure Resolved (before after : Scope) (bound' : List String) (o o' : Site) : Prop where
  role_eq : o'.mention.role = o.mention.role
  bound : StaysBound o o'
  binder : o.mention.role.isBinder = true →
    o'.mention.name ∉ before.takenNames ∧ Holds after o'.mention
  free : o.mention.role.isBinder = false → o.mention.name ∉ o.enclosing →
    o'.mention.name ∉ bound' ∧
      (before.parameters.get? o'.mention.name = some o.mention.role.type ∨
        o'.mention.name ∉ before.takenNames ∧
          after.locals.get? o'.mention.name = some o.mention.role.type)

theorem forall₂_sites {n n' : Node} {R : Mention → Mention → Prop}
    (h : List.Forall₂ R (mentionsInNode n) (mentionsInNode n')) :
    List.Forall₂ (fun o o' => (o ∈ sites n ∧ o' ∈ sites n') ∧ R o.mention o'.mention)
      (sites n) (sites n') := by
  rw [← map_mention_sites, ← map_mention_sites, List.forall₂_map_left_iff,
    List.forall₂_map_right_iff, List.forall₂_iff_zip] at h
  exact List.forall₂_iff_zip.mpr ⟨h.1, fun hmem => ⟨List.of_mem_zip hmem, h.2 hmem⟩⟩

theorem mention_mem {n : Node} {o : Site} (h : o ∈ sites n) : o.mention ∈ mentionsInNode n := by
  rw [← map_mention_sites]
  exact List.mem_map_of_mem h

theorem fit_captureFree (choose : Chooser) (hchoose : Lawful choose) (p : Program) (n : Node)
    (hknown : nodeKnown n = true) (hn : WellNamed n) :
    let r := fit choose OrderedMap.empty p n
    r.fault = none ∧ shapeNode r.fragment = shapeNode n ∧
      (boundNames (mentionsInNode r.fragment)).Nodup ∧
      List.Forall₂
        (Resolved p.scope r.program.scope (boundNames (mentionsInNode r.fragment)))
        (sites n) (sites r.fragment) := by
  intro r
  have hsteps := fit_steps choose OrderedMap.empty p hknown
  refine ⟨fault_fit choose _ p hknown, shapeNode_fit choose _ p hknown, nodup_binders hsteps, ?_⟩
  have hsource := (traced_steps hchoose (List.Subset.refl _) hsteps (traced_start p _)).2
  have hflat :=
    forall₂_sites (List.Forall₂.mp (fun _ _ => And.intro) (roles_of_steps hsteps) hsource)
  have hbound :=
    staysBound_node choose n hknown (start OrderedMap.empty p) rfl hn.unshadowed
  refine List.Forall₂.mp ?_ hflat hbound
  rintro o o' ⟨⟨ho, ho'⟩, hrole, hsource⟩ hstays
  constructor
  · exact hrole
  · exact hstays
  · intro hbinder
    have hmem : o'.mention ∈ bindersOf (mentionsInNode r.fragment) :=
      mem_bindersOf.mpr ⟨mention_mem ho', hrole ▸ hbinder⟩
    exact ⟨binder_free hsteps hmem, binder_holds hsteps hmem⟩
  · intro hvariable houtside
    have hfree : o.mention.name ∉ boundNames (mentionsInNode n) := by
      intro hname
      exact houtside (hn.covered o ho hvariable hname)
    exact declared_of_source hsteps hn.oneType (mention_mem ho) hfree hsource

/-- A loop through elements around a counting one, whose names a program has for parameters. -/
def nestedLoops : Node :=
  .stmt (.foreach 1 "a" "Item" (.variable "xs" "List")
    [.loop 2 (.counting "i" true) (.angelic (some (.variable "i" "int")))
      [.assign 3 (.variable "y" "Item") (.variable "a" "Item"),
        .assign 3 (.variable "z" "int") (.variable "i" "int")]])

/-- A program whose parameters have the names of the loops and variables of a fragment. -/
def namesakes : Program :=
  Program.new "f" "void" (OrderedMap.ofList [("a", "int"), ("i", "int")])

theorem wellNamed_nestedLoops : WellNamed nestedLoops where
  oneType := by
    unfold OneType
    decide
  unshadowed := by
    unfold Unshadowed
    decide
  covered := by decide

theorem fit_captureFree_nestedLoops :
    Lawful pickFirst ∧ nodeKnown nestedLoops = true ∧ WellNamed nestedLoops ∧
      let r := fit pickFirst OrderedMap.empty namesakes nestedLoops
      (r.fault = none ∧ shapeNode r.fragment = shapeNode nestedLoops ∧
        (boundNames (mentionsInNode r.fragment)).Nodup ∧
        List.Forall₂
          (Resolved namesakes.scope r.program.scope (boundNames (mentionsInNode r.fragment)))
          (sites nestedLoops) (sites r.fragment)) ∧
      (mentionsInNode r.fragment).map Mention.name =
        ["elem", "var0", "j", "j", "var1", "elem", "a", "j"] :=
  ⟨lawful_pickFirst, rfl, wellNamed_nestedLoops,
    fit_captureFree pickFirst lawful_pickFirst namesakes nestedLoops rfl wellNamed_nestedLoops,
    by decide +kernel⟩

end FragmentSynthesis.Proofs.CaptureFreedom
