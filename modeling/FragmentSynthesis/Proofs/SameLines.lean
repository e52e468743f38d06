import FragmentSynthesis.Proofs.Declarations
import FragmentSynthesis.Proofs.RenderedOutlines
import FragmentSynthesis.Proofs.TextLines

namespace FragmentSynthesis.Proofs.SameLines

open FragmentSynthesis.Expression
open FragmentSynthesis.ExpressionText
open FragmentSynthesis.Faults
open FragmentSynthesis.Layout
open FragmentSynthesis.NameSets
open FragmentSynthesis.OrderedMaps
open FragmentSynthesis.Programs
open FragmentSynthesis.Proofs.Declarations
open FragmentSynthesis.Proofs.Outlines
open FragmentSynthesis.Proofs.RenderedOutlines
open FragmentSynthesis.Proofs.TextLines
open FragmentSynthesis.Proofs.TokenReading
open FragmentSynthesis.Proofs.UniqueDecoding
open FragmentSynthesis.Scopes
open FragmentSynthesis.StatementText
open FragmentSynthesis.StoppingChanges
open FragmentSynthesis.TokenTables
open FragmentSynthesis.TypeName

/-- None of the characters that separate names in encodings, nor a line break. -/
def Clean (name : String) : Prop :=
  ∀ c ∈ name.toList, c ∉ [':', ';', '\x7b', '\x7d', '\n']

instance (name : String) : Decidable (Clean name) :=
  List.decidableBAll _ name.toList

theorem Clean.notMem {name : String} (h : Clean name) {c : Char}
    (hc : c ∈ [':', ';', '\x7b', '\x7d', '\n']) : c ∉ name.toList :=
  fun hmem => h c hmem hc

theorem mem_dropQualifiersFrom {c : Char} {pending cs : List Char}
    (h : c ∈ dropQualifiersFrom pending cs) : c ∈ pending ∨ c ∈ cs := by
  fun_induction dropQualifiersFrom pending cs <;> grind

theorem newline_notMem_styled {type : String} (htype : '\n' ∉ type.toList) (style : NameStyle) :
    '\n' ∉ (styled style type).toList := by
  cases style with
  | qualified => exact htype
  | simple =>
      rw [styled, simpleName, String.toList_ofList]
      intro hmem
      rcases mem_dropQualifiersFrom hmem with hnil | hmem
      · cases hnil
      · exact htype hmem

theorem newline_notMem_defaultValue (type : String) : '\n' ∉ (defaultValue type).toList := by
  unfold defaultValue
  repeat' split
  all_goals decide

/-- The line that declares a local. -/
def localLine (style : NameStyle) (entry : String × String) : List Char :=
  ("    " ++ styled style entry.2 ++ " " ++ entry.1 ++ " = " ++ defaultValue entry.2 ++ ";").toList

/-- The lines that declare locals. -/
def localLines (style : NameStyle) (p : Program) : List (List Char) :=
  p.scope.locals.entries.map (localLine style)

theorem toList_localText (style : NameStyle) (entry : String × String) :
    (localText style entry).toList = localLine style entry ++ ['\n'] := by
  simp [localText, localLine]

theorem newline_notMem_localLine (style : NameStyle) {entry : String × String}
    (hname : '\n' ∉ entry.1.toList) (htype : '\n' ∉ entry.2.toList) :
    '\n' ∉ localLine style entry := by
  have h := newline_notMem_styled htype style
  have h' := newline_notMem_defaultValue entry.2
  simp [localLine, h, h', hname]

theorem toList_concat_map {α : Type} (f : α → String) (l : List α) :
    (concat (l.map f)).toList = l.flatMap fun a => (f a).toList := by
  induction l with
  | nil => rfl
  | cons a l ih => rw [List.map_cons, concat, String.toList_append, ih, List.flatMap_cons]

theorem toList_localTexts (style : NameStyle) (p : Program) :
    (concat (p.scope.locals.entries.map (localText style))).toList =
      (localLines style p).flatMap (· ++ ['\n']) := by
  rw [toList_concat_map, localLines, List.flatMap_map]
  simp only [toList_localText]

theorem items_inj {xs ys : List (List Char)} {us vs : List Char}
    (hx : ∀ x ∈ xs, ';' ∉ x ∧ '{' ∉ x) (hy : ∀ y ∈ ys, ';' ∉ y ∧ '{' ∉ y)
    (h : xs.flatMap (· ++ [';']) ++ '{' :: us = ys.flatMap (· ++ [';']) ++ '{' :: vs) :
    xs = ys ∧ us = vs := by
  have hbrace (x rest us : List Char) (hx : '{' ∉ x) : '{' :: us ≠ x ++ ';' :: rest := by
    intro h
    cases x with
    | nil => exact absurd (List.cons.inj h).1 (by decide)
    | cons c x => exact hx ((List.cons.inj h).1 ▸ List.mem_cons_self)
  induction xs generalizing ys with
  | nil =>
      cases ys with
      | nil => exact ⟨rfl, (List.cons.inj h).2⟩
      | cons y ys =>
          simp only [List.flatMap_cons, List.append_assoc] at h
          exact (hbrace y _ us (List.forall_mem_cons.mp hy).1.2 h).elim
  | cons x xs ih =>
      cases ys with
      | nil =>
          simp only [List.flatMap_cons, List.append_assoc] at h
          exact (hbrace x _ vs (List.forall_mem_cons.mp hx).1.2 h.symm).elim
      | cons y ys =>
          obtain ⟨⟨hsemi, -⟩, hxs⟩ := List.forall_mem_cons.mp hx
          obtain ⟨⟨hsemi', -⟩, hys⟩ := List.forall_mem_cons.mp hy
          simp only [List.flatMap_cons, List.append_assoc, List.cons_append, List.nil_append] at h
          obtain ⟨rfl, hrest⟩ := separated_inj hsemi hsemi' h
          obtain ⟨rfl, hus⟩ := ih hxs hys hrest
          exact ⟨rfl, hus⟩

theorem parts_inj {α : Type} (P : α → Bool) {xs ys us vs : List α} (hx : ∀ x ∈ xs, P x = true)
    (hy : ∀ y ∈ ys, P y = true) (hu : ∀ u ∈ us, P u = false) (hv : ∀ v ∈ vs, P v = false)
    (h : xs ++ us = ys ++ vs) : xs = ys ∧ us = vs := by
  have hfilter := congrArg (List.filter P) h
  have hnone (l : List α) (hl : ∀ a ∈ l, P a = false) : l.filter P = [] :=
    List.filter_eq_nil_iff.mpr fun a ha => Bool.eq_false_iff.mp (hl a ha)
  rw [List.filter_append, List.filter_append, List.filter_eq_self.mpr hx,
    List.filter_eq_self.mpr hy, hnone us hu, hnone vs hv, List.append_nil, List.append_nil]
    at hfilter
  subst hfilter
  exact ⟨rfl, List.append_cancel_left h⟩

theorem map_inj_of_forall {α β : Type} {f : α → β} {P : α → Prop}
    (hf : ∀ a b, P a → P b → f a = f b → a = b) {l u : List α} (hl : ∀ a ∈ l, P a)
    (hu : ∀ b ∈ u, P b) (h : l.map f = u.map f) : l = u := by
  induction l generalizing u with
  | nil => exact (List.map_eq_nil_iff.mp h.symm).symm
  | cons a l ih =>
      cases u with
      | nil => cases h
      | cons b u =>
          obtain ⟨hfirst, hrest⟩ := List.cons.inj h
          obtain ⟨ha, hl⟩ := List.forall_mem_cons.mp hl
          obtain ⟨hb, hu⟩ := List.forall_mem_cons.mp hu
          rw [hf a b ha hb hfirst, ih hl hu hrest]

/-- The locals of a program in the order of their names. -/
def sortedLocals (p : Program) : List (String × String) :=
  (sortNames p.scope.locals.keys).map fun name => (name, (p.scope.locals.get? name).getD "")

theorem sortedLocals_perm (p : Program) : (sortedLocals p).Perm p.scope.locals.entries := by
  have hkeys : (sortNames p.scope.locals.keys).Perm p.scope.locals.keys := List.mergeSort_perm _ _
  have hself : (p.scope.locals.keys.map fun name =>
      (name, (p.scope.locals.get? name).getD "")) = p.scope.locals.entries := by
    rw [OrderedMap.keys, List.map_map]
    refine (List.map_congr_left ?_).trans (List.map_id _)
    intro entry hentry
    have hget := (get?_eq_some_iff p.scope.locals entry.1 entry.2).mpr hentry
    simp only [Function.comp_apply, hget]
    rfl
  exact hself ▸ hkeys.map _

def localItem (entry : String × String) : List Char :=
  entry.1.toList ++ ':' :: entry.2.toList

/-- What stands before the brace that opens the statements. -/
def frontItems (p : Program) : List (List Char) :=
  (sortedLocals p).map localItem ++ p.scope.counters.sorted.map String.toList

theorem localItem_inj {entry other : String × String} (h : Clean entry.1) (h' : Clean other.1)
    (heq : localItem entry = localItem other) : entry = other := by
  obtain ⟨hname, htype⟩ := separated_inj (h.notMem (by decide)) (h'.notMem (by decide)) heq
  exact Prod.ext (String.toList_inj.mp hname) (String.toList_inj.mp htype)

/-- The encoding of a result, behind a letter that announces it. -/
def resultEncoding : Option Expr → Except Fault String
  | none => pure ""
  | some e => do
      let text ← encode e
      return "R" ++ text

theorem toList_encodeProgram {p : Program} {code : String} (h : encodeProgram p = .ok code) :
    ∃ block result, encodeBlock p.statements = .ok block ∧ resultEncoding p.result = .ok result ∧
      code.toList = 'P' :: ((frontItems p).flatMap (· ++ [';']) ++
        '{' :: (block.toList ++ '}' :: result.toList)) := by
  have hlocals : (concat ((sortNames p.scope.locals.keys).map
      (localEncoding p.scope.locals))).toList =
        ((sortedLocals p).map localItem).flatMap (· ++ [';']) := by
    rw [toList_concat_map, sortedLocals, List.map_map, List.flatMap_map]
    congr 1
    funext name
    simp [localEncoding, localItem]
  have hcounters : (concat (p.scope.counters.sorted.map (· ++ ";"))).toList =
      (p.scope.counters.sorted.map String.toList).flatMap (· ++ [';']) := by
    rw [toList_concat_map, List.flatMap_map]
    congr 1
    funext name
    simp
  obtain ⟨block, hblock, h⟩ := ok_of_bind h
  cases hresult : p.result with
  | none =>
      simp only [hresult] at h
      cases h
      exact ⟨block, "", hblock, rfl, by simp [hlocals, hcounters, frontItems]⟩
  | some e =>
      simp only [hresult] at h
      obtain ⟨text, htext, h⟩ := ok_of_bind h
      cases h
      refine ⟨block, "R" ++ text, hblock, ?_, by simp [hlocals, hcounters, frontItems]⟩
      rw [resultEncoding, htext]
      rfl

/-- The encoding of a program leaves nothing of its text open but the order of its locals. Its names
can be told apart in encodings, its components have tokens of one table, its statements are laid
out, and the headers of its loops agree with the counters that are declared outside. -/
structure Told (table : TokenTable) (p : Program) : Prop where
  statements : BlockEncodable table p.statements
  settled : BlockSettled table p.scope.counters.contains p.statements
  laidOut : ∃ q : Program, finish (layOutProgram q) = (p, none)
  result : ∀ e ∈ p.result, Encodable table e ∧ TokensTell table e
  locals : ∀ entry ∈ p.scope.locals.entries, Clean entry.1 ∧ Clean entry.2
  counters : ∀ name ∈ p.scope.counters.names, Clean name

variable {table : TokenTable} {p q : Program}

theorem Told.atDepth (hp : Told table p) : BlockAtDepth 1 p.statements := by
  obtain ⟨q, hq⟩ := hp.laidOut
  have hnone : ((layOutBlock 1 q.statements).run none).2 = none := congrArg Prod.snd hq
  have hstatements : ((layOutBlock 1 q.statements).run none).1 = p.statements :=
    congrArg (fun r => r.1.statements) hq
  rw [← hstatements]
  exact (blockAtDepth_layOut q.statements 1 none hnone).2

theorem mem_sorted (s : NameSet) (name : String) : name ∈ s.sorted ↔ name ∈ s.names :=
  (List.mergeSort_perm _ _).mem_iff

theorem Told.clean_sortedLocals (hp : Told table p) :
    ∀ entry ∈ sortedLocals p, Clean entry.1 ∧ Clean entry.2 :=
  fun entry hentry => hp.locals entry ((sortedLocals_perm p).mem_iff.mp hentry)

theorem Told.clean_sorted (hp : Told table p) :
    ∀ name ∈ p.scope.counters.sorted, Clean name :=
  fun name hname => hp.counters name ((mem_sorted _ _).mp hname)

theorem Told.frontItems (hp : Told table p) :
    ∀ item ∈ frontItems p, ';' ∉ item ∧ '{' ∉ item := by
  intro item hitem
  rcases List.mem_append.mp hitem with hitem | hitem
  · obtain ⟨entry, hentry, rfl⟩ := List.mem_map.mp hitem
    obtain ⟨hname, htype⟩ := hp.clean_sortedLocals entry hentry
    have hnotMem {c : Char} (hc : c ∈ [':', ';', '\x7b', '\x7d', '\n']) (hne : c ≠ ':') :
        c ∉ localItem entry := by
      simp [localItem, hname.notMem hc, htype.notMem hc, hne]
    exact ⟨hnotMem (by decide) (by decide), hnotMem (by decide) (by decide)⟩
  · obtain ⟨name, hname, rfl⟩ := List.mem_map.mp hitem
    have hclean := hp.clean_sorted name hname
    exact ⟨hclean.notMem (by decide), hclean.notMem (by decide)⟩

theorem locals_of_frontItems (hp : Told table p) (hq : Told table q)
    (h : SameLines.frontItems p = SameLines.frontItems q) :
    p.scope.locals.entries.Perm q.scope.locals.entries ∧
      p.scope.counters.sorted = q.scope.counters.sorted := by
  have hlocal (l : List (String × String)) :
      ∀ item ∈ l.map localItem, decide (':' ∈ item) = true := by
    intro item hitem
    obtain ⟨entry, -, rfl⟩ := List.mem_map.mp hitem
    exact decide_eq_true (List.mem_append_right _ List.mem_cons_self)
  have hcounter (names : List String) (hnames : ∀ name ∈ names, Clean name) :
      ∀ item ∈ names.map String.toList, decide (':' ∈ item) = false := by
    intro item hitem
    obtain ⟨name, hname, rfl⟩ := List.mem_map.mp hitem
    exact decide_eq_false ((hnames name hname).notMem (by decide))
  obtain ⟨hlocals, hcounters⟩ := parts_inj (fun item => decide (':' ∈ item)) (hlocal _) (hlocal _)
    (hcounter _ hp.clean_sorted) (hcounter _ hq.clean_sorted) h
  have hsorted : sortedLocals p = sortedLocals q :=
    map_inj_of_forall (P := fun entry => Clean entry.1) (fun _ _ => localItem_inj)
      (fun entry hentry => (hp.clean_sortedLocals entry hentry).1)
      (fun entry hentry => (hq.clean_sortedLocals entry hentry).1) hlocals
  constructor
  · exact (sortedLocals_perm p).symm.trans (hsorted ▸ sortedLocals_perm q)
  · exact List.map_injective_iff.mpr (fun _ _ => String.toList_inj.mp) hcounters

/-- What programs have in common that have one encoding. -/
structure SameContent (p q : Program) : Prop where
  locals : p.scope.locals.entries.Perm q.scope.locals.entries
  counters : p.scope.counters.sorted = q.scope.counters.sorted
  statements : outlineBlock p.statements = outlineBlock q.statements
  result : p.result.map outline = q.result.map outline

theorem result_of_encoding {a b : Option Expr} (ha : ∀ e ∈ a, Encodable table e)
    (hb : ∀ e ∈ b, Encodable table e) {text : String} (h : resultEncoding a = .ok text)
    (h' : resultEncoding b = .ok text) : a.map outline = b.map outline := by
  have hletter (e : Expr) : resultEncoding (some e) ≠ .ok "" := by
    intro h
    obtain ⟨text, -, h⟩ := ok_of_bind h
    have hlength := congrArg String.length (Except.ok.inj h)
    simp at hlength
  cases a with
  | none =>
      cases h
      cases b with
      | none => rfl
      | some e' => exact (hletter e' h').elim
  | some e =>
      cases b with
      | none =>
          cases h'
          exact (hletter e h).elim
      | some e' =>
          obtain ⟨code, hcode, h⟩ := ok_of_bind h
          obtain ⟨code', hcode', h'⟩ := ok_of_bind h'
          have htext : "R" ++ code = "R" ++ code' :=
            (Except.ok.inj h).trans (Except.ok.inj h').symm
          obtain rfl : code = code' := by simpa using htext
          obtain ⟨hwell, hspell⟩ := outline_of_encode e (ha e rfl) hcode
          obtain ⟨hwell', hspell'⟩ := outline_of_encode e' (hb e' rfl) hcode'
          have hspelling : spellOutline (outline e) ++ [] = spellOutline (outline e') ++ [] := by
            rw [hspell, hspell']
          exact congrArg some (spellOutline_inj _ _ hwell hwell' hspelling).1

/-- The encoding of a program can be taken apart: its names are told from the braces around its
statements, and its components have tokens of one table. -/
structure Readable (table : TokenTable) (p : Program) : Prop where
  statements : BlockEncodable table p.statements
  result : ∀ e ∈ p.result, Encodable table e
  front : ∀ item ∈ frontItems p, ';' ∉ item ∧ '{' ∉ item

theorem bodies_of_encodeProgram (hp : Readable table p) (hq : Readable table q) {code : String}
    (h : encodeProgram p = .ok code) (h' : encodeProgram q = .ok code) :
    frontItems p = frontItems q ∧ outlineBlock p.statements = outlineBlock q.statements ∧
      p.result.map outline = q.result.map outline := by
  obtain ⟨block, result, hblock, hresult, hcode⟩ := toList_encodeProgram h
  obtain ⟨block', result', hblock', hresult', hcode'⟩ := toList_encodeProgram h'
  obtain ⟨hitems, hrest⟩ :=
    items_inj hp.front hq.front (List.cons.inj (hcode.symm.trans hcode')).2
  obtain ⟨hwell, hspell⟩ := outlineBlock_of_encode p.statements hp.statements hblock
  obtain ⟨hwell', hspell'⟩ := outlineBlock_of_encode q.statements hq.statements hblock'
  rw [← hspell, ← hspell'] at hrest
  obtain ⟨hstatements, hend⟩ := spellBlock_inj _ _ hwell hwell'
    (isStatement_outlineBlock hp.statements) (isStatement_outlineBlock hq.statements) hrest
  obtain rfl : result = result' := String.toList_inj.mp hend
  exact ⟨hitems, hstatements, result_of_encoding hp.result hq.result hresult hresult'⟩

theorem Told.readable (hp : Told table p) : Readable table p :=
  ⟨hp.statements, fun e he => (hp.result e he).1, hp.frontItems⟩

theorem sameContent_of_encodeProgram (hp : Told table p) (hq : Told table q) {code : String}
    (h : encodeProgram p = .ok code) (h' : encodeProgram q = .ok code) : SameContent p q := by
  obtain ⟨hitems, hstatements, hresult⟩ :=
    bodies_of_encodeProgram hp.readable hq.readable h h'
  obtain ⟨hlocals, hcounters⟩ := locals_of_frontItems hp hq hitems
  exact ⟨hlocals, hcounters, hstatements, hresult⟩

/-- The line that returns a result. -/
def resultText (style : NameStyle) : Option Expr → Except Fault String
  | none => pure ""
  | some e => do
      let text ← render style e
      return "    return " ++ text ++ ";\n"

/-- The line that opens a program. -/
def headerLine (style : NameStyle) (p : Program) : List Char :=
  ("public static " ++ styled style p.returnType ++ " " ++ p.name ++ "("
    ++ ", ".intercalate (p.scope.parameters.entries.map (parameterText style)) ++ ") \x7b").toList

theorem toList_headerText (style : NameStyle) (p : Program) :
    (headerText style p).toList = headerLine style p ++ ['\n'] := by
  have hend (front : String) :
      (front ++ ") \x7b\n").toList = (front ++ ") \x7b").toList ++ ['\n'] := by
    simp
  exact hend _

/-- The text behind the lines that declare locals. -/
def afterLocals (p : Program) (statements result : String) : String :=
  concat (p.scope.counters.sorted.map counterText) ++ statements ++ result ++ "\x7d\n"

theorem renderProgram_eq (style : NameStyle) (p : Program) :
    renderProgram style p = (do
      let statements ← renderBlock style p.statements
      let result ← resultText style p.result
      return headerText style p ++ (concat (p.scope.locals.entries.map (localText style))
        ++ afterLocals p statements result)) := by
  simp only [afterLocals, ← String.append_assoc]
  unfold renderProgram
  refine bind_congr fun statements => ?_
  cases p.result with
  | none => simp only [resultText, pure_bind]
  | some e => simp only [resultText, pure_bind, bind_assoc]

/-- The lines of a program are those of its locals between lines on which their order has no
influence. -/
theorem splitLines_of_renderProgram {style : NameStyle} (hp : Told table p) {text : String}
    (h : renderProgram style p = .ok text) :
    ∃ statements result, renderBlock style p.statements = .ok statements ∧
      resultText style p.result = .ok result ∧
      splitLines text.toList = splitLines (headerLine style p) ++ (localLines style p ++
        splitLines (afterLocals p statements result).toList) := by
  rw [renderProgram_eq] at h
  obtain ⟨statements, hstatements, h⟩ := ok_of_bind h
  obtain ⟨result, hresult, h⟩ := ok_of_bind h
  refine ⟨statements, result, hstatements, hresult, ?_⟩
  rw [← Except.ok.inj h]
  have hlines : ∀ line ∈ localLines style p, '\n' ∉ line := by
    intro line hline
    obtain ⟨entry, hentry, rfl⟩ := List.mem_map.mp hline
    obtain ⟨hname, htype⟩ := hp.locals entry hentry
    exact newline_notMem_localLine style (hname.notMem (by decide)) (htype.notMem (by decide))
  rw [String.toList_append, String.toList_append, toList_headerText, toList_localTexts,
    List.append_assoc, List.singleton_append, splitLines_append, splitLines_flatMap hlines]

theorem resultText_eq_of_outline (style : NameStyle) (hp : Told table p) (hq : Told table q)
    (h : p.result.map outline = q.result.map outline) :
    resultText style p.result = resultText style q.result := by
  have hresult := hp.result
  have hresult' := hq.result
  cases hr : p.result with
  | none =>
      rw [hr] at h
      rw [Option.map_eq_none_iff.mp h.symm]
  | some e =>
      rw [hr] at h hresult
      obtain ⟨e', hr', houtline⟩ := Option.map_eq_some_iff.mp h.symm
      rw [hr'] at hresult'
      obtain ⟨he, htell⟩ := hresult e rfl
      obtain ⟨he', htell'⟩ := hresult' e' rfl
      have htext := (sameText_of_outline style e e' he he' htell htell' houtline.symm).2
      rw [hr', resultText, resultText, htext]

theorem contains_eq_of_sorted {s t : NameSet} (h : s.sorted = t.sorted) :
    s.contains = t.contains := by
  funext name
  rw [NameSet.contains, NameSet.contains, decide_eq_decide, ← mem_sorted, h, mem_sorted]

theorem renderBlock_eq_of_sameContent (style : NameStyle) (hp : Told table p) (hq : Told table q)
    (h : SameContent p q) :
    renderBlock style p.statements = renderBlock style q.statements := by
  have hsettled := hp.settled
  rw [contains_eq_of_sorted h.counters] at hsettled
  exact renderBlock_eq_of_outline style p.statements q.statements hp.statements hq.statements
    hsettled hq.settled hp.atDepth hq.atDepth h.statements

/-- The text of two programs has the same lines, those that declare locals possibly in another
order. -/
def SameLinesButLocals (style : NameStyle) (p q : Program) (text text' : String) : Prop :=
  ∃ before after : List (List Char),
    splitLines text.toList = before ++ (localLines style p ++ after) ∧
      splitLines text'.toList = before ++ (localLines style q ++ after) ∧
      (localLines style p).Perm (localLines style q)

/-- Programs of one signature that have the same encoding have the same text but for the order of
their locals, in either style. If one of them has a text, so has the other. -/
theorem sameLines_of_encodeProgram {table : TokenTable} {p q : Program} (hp : Told table p)
    (hq : Told table q) (hname : p.name = q.name) (hreturn : p.returnType = q.returnType)
    (hparameters : p.scope.parameters = q.scope.parameters) {code : String}
    (hcode : encodeProgram p = .ok code) (hcode' : encodeProgram q = .ok code)
    (style : NameStyle) {text : String} (htext : renderProgram style p = .ok text) :
    ∃ text', renderProgram style q = .ok text' ∧ SameLinesButLocals style p q text text' := by
  have hcontent := sameContent_of_encodeProgram hp hq hcode hcode'
  obtain ⟨statements, result, hstatements, hresult, hlines⟩ := splitLines_of_renderProgram hp htext
  have hstatements' : renderBlock style q.statements = .ok statements := by
    rw [← renderBlock_eq_of_sameContent style hp hq hcontent, hstatements]
  have hresult' : resultText style q.result = .ok result := by
    rw [← resultText_eq_of_outline style hp hq hcontent.result, hresult]
  have htext' : ∃ text', renderProgram style q = .ok text' := by
    rw [renderProgram_eq, hstatements', hresult']
    exact ⟨_, rfl⟩
  obtain ⟨text', htext'⟩ := htext'
  obtain ⟨_, _, hblock, htail, hlines'⟩ := splitLines_of_renderProgram hq htext'
  obtain rfl := Except.ok.inj (hblock.symm.trans hstatements')
  obtain rfl := Except.ok.inj (htail.symm.trans hresult')
  have hheader : headerLine style q = headerLine style p := by
    rw [headerLine, headerLine, hname, hreturn, hparameters]
  have hafter : afterLocals q = afterLocals p := by
    funext statements result
    rw [afterLocals, afterLocals, hcontent.counters]
  rw [hheader, hafter] at hlines'
  exact ⟨text', htext', _, _, hlines, hlines', hcontent.locals.map _⟩

/-- Counting up to the length of a text with a counter declared outside, the locals being declared
in a given order. -/
def lastIndex (locals : List (String × String)) : Program where
  returnType := "int"
  scope :=
    { Scope.ofParameters "lastIndex" (OrderedMap.ofList [("s", "java.lang.String")]) with
      locals := OrderedMap.ofList locals
      counters := NameSet.ofList ["i"] }
  statements :=
    [.loop 1 (.counting "i" false)
      (.concrete (.binary .lt (.variable "i" "int")
        (.use lengthMethod (some (.variable "s" "java.lang.String")) [])))
      [.assign 2 (.variable "x" "int") (.variable "i" "int")]]
  result := some (.variable "x" "int")

theorem told_lastIndex {locals : List (String × String)}
    (h : ∀ entry ∈ (OrderedMap.ofList locals).entries, Clean entry.1 ∧ Clean entry.2) :
    Told lengthTable (lastIndex locals) where
  statements := by
    have hi : Plain "i" := by decide
    have hs : Plain "s" := by decide
    have hx : Plain "x" := by decide
    exact ⟨⟨hi, ⟨hi, takes_lengthMethod, hs, trivial⟩, ⟨hx, hi⟩, trivial⟩, trivial⟩
  settled := by
    have hundashed : Undashed lengthMethod := by
      intro type htype
      cases htype
      decide
    have htells : TokenTells lengthTable lengthMethod := ⟨issued_lengthMethod, hundashed⟩
    exact ⟨⟨rfl, ⟨trivial, htells, trivial, trivial⟩, trivial, trivial⟩, trivial⟩
  laidOut := ⟨lastIndex locals, rfl⟩
  result := by
    rintro e ⟨⟩
    have hx : Plain "x" := by decide
    exact ⟨hx, trivial⟩
  locals := h
  counters := by
    have hi : ∀ name ∈ ["i"], Clean name := by decide
    exact hi

theorem sortNames_eq {names sorted : List String} (hperm : names.Perm sorted)
    (hsorted : sorted.Pairwise (· ≤ ·)) : sortNames names = sorted := by
  have htrans (a b c : String) : decide (a ≤ b) = true → decide (b ≤ c) = true →
      decide (a ≤ c) = true := by
    simpa using String.le_trans
  have htotal (a b : String) : (decide (a ≤ b) || decide (b ≤ a)) = true := by
    simpa using String.le_total a b
  have hresult : (sortNames names).Pairwise (· ≤ ·) :=
    (List.pairwise_mergeSort htrans htotal names).imp of_decide_eq_true
  refine List.Perm.eq_of_pairwise ?_ hresult hsorted ((List.mergeSort_perm names _).trans hperm)
  intro a b _ _
  exact String.le_antisymm

theorem sameLines_of_encodeProgram_lastIndex :
    let p := lastIndex [("x", "int"), ("y", "boolean")]
    let q := lastIndex [("y", "boolean"), ("x", "int")]
    let code := "Px:int;y:boolean;i;\x7bri;o<vi;f0:vs;\x7bavx;vi;\x7d\x7dRvx;"
    let text := "public static int lastIndex(String s) \x7b\n    int x = 0;\n    boolean y = false;\n"
      ++ "    int i = 0;\n    for (i = 0; i < s.length(); i++) \x7b\n        x = i;\n    \x7d\n"
      ++ "    return x;\n\x7d\n"
    (Told lengthTable p ∧ Told lengthTable q) ∧
      (encodeProgram p = .ok code ∧ encodeProgram q = .ok code) ∧
      renderProgram .simple p = .ok text ∧
      ∃ text', renderProgram .simple q = .ok text' ∧ SameLinesButLocals .simple p q text text' := by
  have hsort : sortNames ["x", "y"] = ["x", "y"] :=
    sortNames_eq (List.Perm.refl _) (by decide)
  have hsort' : sortNames ["y", "x"] = ["x", "y"] :=
    sortNames_eq (List.Perm.swap _ _ _) (by decide)
  intro p q code text
  have hp : Told lengthTable p := told_lastIndex (by decide)
  have hq : Told lengthTable q := told_lastIndex (by decide)
  have hcounters (locals : List (String × String)) :
      (lastIndex locals).scope.counters.sorted = ["i"] :=
    sortNames_eq (List.Perm.refl _) (List.pairwise_singleton _ _)
  have hkeys : p.scope.locals.keys = ["x", "y"] := rfl
  have hkeys' : q.scope.locals.keys = ["y", "x"] := rfl
  have hcode : encodeProgram p = .ok code := by
    rw [encodeProgram, hkeys, hsort, hcounters]
    decide +kernel
  have hcode' : encodeProgram q = .ok code := by
    rw [encodeProgram, hkeys', hsort', hcounters]
    decide +kernel
  have htext : renderProgram .simple p = .ok text := by
    rw [renderProgram, hcounters]
    decide +kernel
  exact ⟨⟨hp, hq⟩, ⟨hcode, hcode'⟩, htext,
    sameLines_of_encodeProgram hp hq rfl rfl rfl hcode hcode' .simple htext⟩

end FragmentSynthesis.Proofs.SameLines
