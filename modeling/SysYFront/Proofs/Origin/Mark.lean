import SysYFront.Proofs.Grammar.Program

/-!
# SysYFront.Proofs.Origin.Mark

Which token a part of a program stands at. Every part has a place, and what the part is tells what
was written there: a variable stands at its name, an operation at its operator, a call and a
subscript at their opening brackets, a declaration at the declared name. The list of all parts
with their places are the *marks* of a tree; a part of which nothing needs to be known has the
sign `other`.

**A tree that was derived from tokens has its marks among these tokens** (`DerivesProgram.marked`).
-/

namespace SysYFront

/-- What is known of the token that a part of a program stands at. -/
inductive Sign
  | name (s : String)
  | symbol (text : String)
  | loopControl (word : Keyword)
  | other

/-- Whether a token of the given kind is what the sign tells. -/
def Sign.Fits : Sign → Token.Kind → Prop
  | name s, kind => kind = .name s
  | symbol text, kind => ∃ s : Symbol, kind = .symbol s ∧ s.text = text
  | loopControl word, kind => kind = .keyword word ∧ (word = .breakKw ∨ word = .continueKw)
  | other, _ => True

/-- The parts of a tree with their places. -/
abbrev Marks := List (Sign × Location)

variable {α : Type}

/-! ### The marks of a tree -/

mutual

def Expr.marks : Expr α → Marks
  | .var name l _ => [(.name name, l)]
  | .literal _ l _ => [(.other, l)]
  | .unary op e l _ => (.symbol op.symbol, l) :: Expr.marks e
  | .binary op a b l _ => (.symbol op.symbol, l) :: (Expr.marks a ++ Expr.marks b)
  | .assign a b l _ => (.symbol "=", l) :: (Expr.marks a ++ Expr.marks b)
  | .call callee args l _ => (.symbol "(", l) :: (Expr.marks callee ++ Expr.marksAll args)
  | .index a i l _ => (.symbol "[", l) :: (Expr.marks a ++ Expr.marks i)

def Expr.marksAll : List (Expr α) → Marks
  | [] => []
  | e :: es => Expr.marks e ++ Expr.marksAll es

end

mutual

def Init.marks : Init α → Marks
  | .expr e => e.marks
  | .list items l => (.other, l) :: Init.marksAll items

def Init.marksAll : List (Init α) → Marks
  | [] => []
  | item :: items => Init.marks item ++ Init.marksAll items

end

def Decl.marks (d : Decl α) : Marks :=
  (.name d.name, d.location) ::
    (Expr.marksAll d.dims ++ (d.init.map Init.marks).getD [])

mutual

def Stmt.marks : Stmt α → Marks
  | .empty l | .returnNothing l => [(.other, l)]
  | .expr e l | .returnValue e l => (.other, l) :: e.marks
  | .block items l => (.other, l) :: Item.marksAll items
  | .ifThen e body l | .whileLoop e body l => (.other, l) :: (e.marks ++ Stmt.marks body)
  | .ifElse e body otherwise l =>
    (.other, l) :: (e.marks ++ Stmt.marks body ++ Stmt.marks otherwise)
  | .breakLoop l => [(.loopControl .breakKw, l)]
  | .continueLoop l => [(.loopControl .continueKw, l)]

def Item.marks : Item α → Marks
  | .decl d => d.marks
  | .stmt s => Stmt.marks s

def Item.marksAll : List (Item α) → Marks
  | [] => []
  | item :: items => Item.marks item ++ Item.marksAll items

end

def Param.marks (p : Param α) : Marks :=
  (.other, p.location) :: Expr.marksAll p.dims

def Function.marks (f : Function α) : Marks :=
  (.other, f.location) :: (f.params.flatMap Param.marks ++ Item.marksAll f.body.items)

def Program.marks (p : Program α) : Marks :=
  p.flatMap fun
    | .global d => d.marks
    | .function f => f.marks

namespace Expr

/-- A node has a mark of its own. -/
theorem exists_mark (e : Expr α) : ∃ sign, (sign, e.location) ∈ e.marks := by
  cases e <;> exact ⟨_, List.mem_cons_self⟩

theorem marksAll_eq_flatMap (es : List (Expr α)) : marksAll es = es.flatMap marks := by
  induction es with
  | nil => rfl
  | cons e es ih => rw [marksAll, ih, List.flatMap_cons]

end Expr

theorem Init.exists_mark (i : Init α) : ∃ sign, (sign, i.location) ∈ i.marks := by
  cases i with
  | expr e => exact e.exists_mark
  | list items l => exact ⟨_, List.mem_cons_self⟩

theorem Init.marksAll_eq_flatMap (items : List (Init α)) :
    marksAll items = items.flatMap marks := by
  induction items with
  | nil => rfl
  | cons item items ih => rw [marksAll, ih, List.flatMap_cons]

theorem Item.marksAll_eq_flatMap (items : List (Item α)) :
    marksAll items = items.flatMap marks := by
  induction items with
  | nil => rfl
  | cons item items ih => rw [marksAll, ih, List.flatMap_cons]

/-! ### Marks among tokens -/

/-- Whether every mark is at a token of the list that is what the mark tells. -/
def Marks.Among (marks : Marks) (tokens : List Token) : Prop :=
  ∀ sign l, (sign, l) ∈ marks → ∃ kind, ⟨kind, l⟩ ∈ tokens ∧ sign.Fits kind

namespace Marks.Among

variable {marks marks' : Marks} {tokens tokens' : List Token}

theorem nil : Among [] tokens := nofun

theorem mono (h : Among marks tokens) (hsub : tokens ⊆ tokens') : Among marks tokens' := by
  intro sign l hmark
  obtain ⟨kind, hmem, hfits⟩ := h sign l hmark
  exact ⟨kind, hsub hmem, hfits⟩

theorem cons {sign : Sign} {l : Location} (kind : Token.Kind) (hmem : ⟨kind, l⟩ ∈ tokens)
    (hfits : sign.Fits kind) (h : Among marks tokens) : Among ((sign, l) :: marks) tokens := by
  intro sign' l' hmark
  rcases List.mem_cons.mp hmark with heq | hmark
  · obtain ⟨rfl, rfl⟩ := Prod.mk.inj heq
    exact ⟨kind, hmem, hfits⟩
  · exact h sign' l' hmark

theorem append (h : Among marks tokens) (h' : Among marks' tokens) :
    Among (marks ++ marks') tokens := by
  intro sign l hmark
  rcases List.mem_append.mp hmark with hmark | hmark
  · exact h sign l hmark
  · exact h' sign l hmark

theorem flatMap {β : Type} {bs : List β} {f : β → Marks}
    (h : ∀ b ∈ bs, Among (f b) tokens) : Among (bs.flatMap f) tokens := by
  intro sign l hmark
  obtain ⟨b, hb, hmark⟩ := List.mem_flatMap.mp hmark
  exact h b hb sign l hmark

end Marks.Among

/-! ### Derived trees -/

namespace Grammar

open Marks (Among)

section Phrases

variable {β : Type} {D : List Token → β → Prop} {f : β → Marks} {ts : List Token} {bs : List β}

/-- A list of phrases has its marks among its tokens if each phrase has. -/
theorem Separated.marked {separator : Token.Kind} (h : Separated separator D ts bs)
    (hD : ∀ us b, D us b → Among (f b) us) : Among (bs.flatMap f) ts := by
  induction h with
  | one ha => exact .append (hD _ _ ha) .nil
  | more l ha _ ih =>
    have hfirst := hD _ _ ha
    exact .append (hfirst.mono fun t ht => by simp [ht]) (ih.mono fun t ht => by simp [ht])

theorem Repeated.marked (h : Repeated D ts bs) (hD : ∀ us b, D us b → Among (f b) us) :
    Among (bs.flatMap f) ts := by
  induction h with
  | nil => exact .nil
  | cons ha _ ih =>
    have hfirst := hD _ _ ha
    exact .append (hfirst.mono fun t ht => by simp [ht]) (ih.mono fun t ht => by simp [ht])

end Phrases

mutual

/-- A node stands at the token that its sign tells: each constructor of the grammar puts it
there. -/
theorem Derives.marked : ∀ {c : Category} {ts : List Token} {e : Expr Unit}, Derives c ts e →
    Among e.marks ts
  | _, _, _, .int n l | _, _, _, .float x l => .cons _ List.mem_cons_self trivial .nil
  | _, _, _, .name s l => .cons _ List.mem_cons_self rfl .nil
  | _, _, _, .group l k h => h.marked.mono fun t ht => by simp [ht]
  | _, _, _, .index l k ha hi => by
    refine .cons (.symbol .leftBracket) (by simp) ⟨.leftBracket, rfl, rfl⟩ (.append ?_ ?_)
    · exact ha.marked.mono fun t ht => by simp [ht]
    · exact hi.marked.mono fun t ht => by simp [ht]
  | _, _, _, .callNothing l k h => by
    refine .cons (.symbol .leftParen) (by simp) ⟨.leftParen, rfl, rfl⟩ (.append ?_ .nil)
    exact h.marked.mono fun t ht => by simp [ht]
  | _, _, _, .call l k h hargs => by
    refine .cons (.symbol .leftParen) (by simp) ⟨.leftParen, rfl, rfl⟩ (.append ?_ ?_)
    · exact h.marked.mono fun t ht => by simp [ht]
    · exact (Separated.marksAll hargs).mono fun t ht => by simp [ht]
  | _, _, _, .unary l hs h =>
    .cons _ List.mem_cons_self ⟨_, rfl, hs⟩ (h.marked.mono (List.subset_cons_self _ _))
  | _, _, _, .binary l hs ha _ hb => by
    refine .cons (.symbol _) (by simp) ⟨_, rfl, hs⟩ (.append ?_ ?_)
    · exact ha.marked.mono fun t ht => by simp [ht]
    · exact hb.marked.mono fun t ht => by simp [ht]
  | _, _, _, .assign l ha hb => by
    refine .cons (.symbol .equal) (by simp) ⟨.equal, rfl, rfl⟩ (.append ?_ ?_)
    · exact ha.marked.mono fun t ht => by simp [ht]
    · exact hb.marked.mono fun t ht => by simp [ht]
  | _, _, _, .tighter _ h => h.marked

theorem Separated.marksAll : ∀ {ts : List Token} {es : List (Expr Unit)},
    Separated (.symbol .comma) (Derives .assignment) ts es → Among (Expr.marksAll es) ts
  | _, _, .one h => .append h.marked .nil
  | _, _, .more l h hs => by
    refine .append ?_ ?_
    · exact h.marked.mono fun t ht => by simp [ht]
    · exact (Separated.marksAll hs).mono fun t ht => by simp [ht]

end

mutual

theorem Initializer.marked : ∀ {ts : List Token} {i : Init Unit}, Initializer ts i →
    Among i.marks ts
  | _, _, .expr h => h.marked
  | _, _, .string s l => by
    -- every element of a string stands at the string
    refine .cons _ List.mem_cons_self trivial ?_
    rw [Init.marksAll_eq_flatMap]
    refine .flatMap fun item hitem => ?_
    obtain ⟨c, -, rfl⟩ := List.mem_map.mp hitem
    exact .cons _ List.mem_cons_self trivial .nil
  | _, _, .list l k h => by
    refine .cons (.symbol .leftBrace) (by simp) trivial ?_
    exact (Listed.marksAll h).mono fun t ht => by simp [ht]

theorem Listed.marksAll : ∀ {ts : List Token} {items : List (Init Unit)},
    Listed (.symbol .comma) Initializer ts items → Among (Init.marksAll items) ts
  | _, _, .nothing => .nil
  | _, _, .plain h => Separated.initMarksAll h
  | _, _, .trailing l h => (Separated.initMarksAll h).mono fun t ht => by simp [ht]

theorem Separated.initMarksAll : ∀ {ts : List Token} {items : List (Init Unit)},
    Separated (.symbol .comma) Initializer ts items → Among (Init.marksAll items) ts
  | _, _, .one h => .append h.marked .nil
  | _, _, .more l h hs => by
    refine .append ?_ ?_
    · exact h.marked.mono fun t ht => by simp [ht]
    · exact (Separated.initMarksAll hs).mono fun t ht => by simp [ht]

end

theorem Dimension.marked {ts : List Token} {e : Expr Unit} (h : Dimension ts e) :
    Among e.marks ts := by
  cases h with
  | mk l k he => exact he.marked.mono fun t ht => by simp [ht]

theorem Repeated.dimensions {ts : List Token} {dims : List (Expr Unit)}
    (h : Repeated Dimension ts dims) : Among (Expr.marksAll dims) ts := by
  rw [Expr.marksAll_eq_flatMap]
  exact h.marked fun _ _ => Dimension.marked

theorem Declarator.marked {isConst : Bool} {base : Base} {ts : List Token} {d : Decl Unit}
    (h : Declarator isConst base ts d) : Among d.marks ts := by
  cases h with
  | plain s l hdims =>
    refine .cons _ List.mem_cons_self rfl (.append ?_ .nil)
    exact hdims.dimensions.mono fun t ht => by simp [ht]
  | initialized s l k hdims hi =>
    refine .cons (.name s) (by simp) rfl (.append ?_ ?_)
    · exact hdims.dimensions.mono fun t ht => by simp [ht]
    · exact hi.marked.mono fun t ht => by simp [ht]

theorem DeclarationList.marked {ts : List Token} {ds : List (Decl Unit)}
    (h : DeclarationList ts ds) : Among (ds.flatMap Decl.marks) ts := by
  cases h with
  | plain l k _ hds | const c l k _ hds =>
    exact (hds.marked fun _ _ => Declarator.marked).mono fun t ht => by simp [ht]

theorem Condition.marked {ts : List Token} {e : Expr Unit} (h : Condition ts e) :
    Among e.marks ts := by
  cases h with
  | mk l k he => exact he.marked.mono fun t ht => by simp [ht]

mutual

theorem Statement.marked : ∀ {ts : List Token} {s : Stmt Unit}, Statement ts s → Among s.marks ts
  | _, _, .empty l | _, _, .returnNothing l k => .cons _ List.mem_cons_self trivial .nil
  | _, _, .expr (t := t) k h =>
    .cons t.kind List.mem_cons_self trivial
      (h.marked.mono (List.subset_append_left _ _))
  | _, _, .block l k h => by
    refine .cons (.symbol .leftBrace) (by simp) trivial ?_
    exact (Repeated.items h).mono fun t ht => by simp [ht]
  | _, _, .ifThen l hc hs | _, _, .whileLoop l hc hs => by
    refine .cons _ List.mem_cons_self trivial (.append ?_ ?_)
    · exact hc.marked.mono fun t ht => by simp [ht]
    · exact hs.marked.mono fun t ht => by simp [ht]
  | _, _, .ifElse l k hc hs _ hs' => by
    refine .cons _ List.mem_cons_self trivial (.append (.append ?_ ?_) ?_)
    · exact hc.marked.mono fun t ht => by simp [ht]
    · exact hs.marked.mono fun t ht => by simp [ht]
    · exact hs'.marked.mono fun t ht => by simp [ht]
  | _, _, .breakLoop l k => .cons _ List.mem_cons_self ⟨rfl, .inl rfl⟩ .nil
  | _, _, .continueLoop l k => .cons _ List.mem_cons_self ⟨rfl, .inr rfl⟩ .nil
  | _, _, .returnValue l k h => by
    refine .cons (.keyword .returnKw) (by simp) trivial ?_
    exact h.marked.mono fun t ht => by simp [ht]

theorem BlockItem.marked : ∀ {ts : List Token} {items : List (Item Unit)}, BlockItem ts items →
    Among (Item.marksAll items) ts
  | _, _, .declarations h => by
    rw [Item.marksAll_eq_flatMap, List.flatMap_map]
    exact h.marked
  | _, _, .statement h => .append h.marked .nil

theorem Repeated.items : ∀ {ts : List Token} {parts : List (List (Item Unit))},
    Repeated BlockItem ts parts → Among (Item.marksAll parts.flatten) ts
  | _, _, .nil => .nil
  | _, _, .cons (a := items) h hs => by
    have hfirst := BlockItem.marked h
    have hothers := Repeated.items hs
    rw [Item.marksAll_eq_flatMap] at hfirst hothers ⊢
    rw [List.flatten_cons, List.flatMap_append]
    refine .append ?_ ?_
    · exact hfirst.mono fun t ht => by simp [ht]
    · exact hothers.mono fun t ht => by simp [ht]

end

theorem Braced.marked {ts : List Token} {b : Block Unit} (h : Braced ts b) :
    Among (Item.marksAll b.items) ts := by
  cases h with
  | mk l k hitems => exact (Repeated.items hitems).mono fun t ht => by simp [ht]

theorem Brackets.marked {ts : List Token} {isOpen : Bool} {dims : List (Expr Unit)}
    (h : Brackets ts isOpen dims) : Among (Expr.marksAll dims) ts := by
  cases h with
  | written hdims => exact hdims.dimensions
  | decaying l k hdims => exact hdims.dimensions.mono fun t ht => by simp [ht]

theorem Formal.marked {ts : List Token} {p : Param Unit} (h : Formal ts p) :
    Among p.marks ts := by
  cases h with
  | mk s l k _ hdims =>
    refine .cons _ List.mem_cons_self trivial ?_
    exact hdims.marked.mono fun t ht => by simp [ht]

theorem Formals.marked {ts : List Token} {ps : List (Param Unit)} (h : Formals ts ps) :
    Among (ps.flatMap Param.marks) ts := by
  cases h with
  | none | void l => exact .nil
  | some h => exact h.marked fun _ _ => Formal.marked

theorem Definition.marked {ts : List Token} {f : Function Unit} (h : Definition ts f) :
    Among f.marks ts := by
  cases h with
  | @mk kind _ _ _ _ _ s l k m m' _ hps hbody =>
    refine .cons kind (by simp) trivial (.append ?_ ?_)
    · exact hps.marked.mono fun t ht => by simp [ht]
    · exact hbody.marked.mono fun t ht => by simp [ht]

theorem ProgramUnit.marked {ts : List Token} {p : Program Unit} (h : ProgramUnit ts p) :
    Among p.marks ts := by
  cases h with
  | stray l => exact .nil
  | declarations h =>
    rw [Program.marks, List.flatMap_map]
    exact h.marked
  | function h => exact .append h.marked .nil

/-- **The marks of a program are among its tokens.** -/
theorem DerivesProgram.marked {ts : List Token} {p : Program Unit} (h : DerivesProgram ts p) :
    Among p.marks ts := by
  cases h with
  | mk hunits =>
    rw [Program.marks, List.flatten_eq_flatMap, List.flatMap_assoc]
    exact hunits.marked fun _ _ => ProgramUnit.marked

end Grammar

end SysYFront
