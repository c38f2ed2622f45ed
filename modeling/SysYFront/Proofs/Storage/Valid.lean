import SysYFront.Proofs.Storage.Sites

/-!
# SysYFront.Proofs.Storage.Valid

The rules at every site. A program that keeps the rules keeps them wherever an expression stands
in it: in a context that matches the bindings there, the expression is valid (`Site.Valid`), and
so is every part of it but the name of a called function, which no context lists.
-/

namespace SysYFront

variable {α : Type} {Γ : Context} {Φ : Headings}

/-! ### Parts of expressions -/

namespace Expr

/-- Whether an expression is nothing but a name. -/
def IsName (e : Expr α) : Prop :=
  ∃ name l n, e = var name l n

mutual

theorem valid_of_mem_parts : ∀ {e e' : Expr α}, e.Valid Γ Φ → e' ∈ e.parts →
    e'.Valid Γ Φ ∨ e'.IsName
  | var name l n, e', h, hpart | literal v l n, e', h, hpart => by
    obtain rfl := List.mem_singleton.mp hpart
    exact .inl h
  | unary op e l n, e', h, hpart => by
    rcases List.mem_cons.mp hpart with rfl | hpart
    · exact .inl h
    · exact valid_of_mem_parts h.1 hpart
  | binary op a b l n, e', h, hpart => by
    rcases List.mem_cons.mp hpart with rfl | hpart
    · exact .inl h
    · rcases List.mem_append.mp hpart with hpart | hpart
      · exact valid_of_mem_parts h.1.1 hpart
      · exact valid_of_mem_parts h.2.1.1 hpart
  | assign a b l n, e', h, hpart => by
    rcases List.mem_cons.mp hpart with rfl | hpart
    · exact .inl h
    · rcases List.mem_append.mp hpart with hpart | hpart
      · exact valid_of_mem_parts h.1.1 hpart
      · exact valid_of_mem_parts h.2.1 hpart
  | index a i l n, e', h, hpart => by
    rcases List.mem_cons.mp hpart with rfl | hpart
    · exact .inl h
    · rcases List.mem_append.mp hpart with hpart | hpart
      · exact valid_of_mem_parts h.1.1 hpart
      · exact valid_of_mem_parts h.2.1.1 hpart
  | call callee args l n, e', h, hpart => by
    rcases List.mem_cons.mp hpart with rfl | hpart
    · exact .inl h
    cases callee with
    | var name k m =>
      obtain ⟨heading, -, hargs⟩ := h
      rcases List.mem_cons.mp hpart with rfl | hpart
      · exact .inr ⟨name, k, m, rfl⟩
      · exact valid_of_mem_partsAll hargs hpart
    | _ => exact absurd h id

theorem valid_of_mem_partsAll : ∀ {params : Context} {es : List (Expr α)} {e' : Expr α},
    ArgumentsValid Γ Φ params es → e' ∈ partsAll es → e'.Valid Γ Φ ∨ e'.IsName
  | _, [], _, _, hpart => nomatch hpart
  | [], _ :: _, _, h, _ => absurd h id
  | (_, _) :: _, e :: es, e', h, hpart => by
    rcases List.mem_append.mp hpart with hpart | hpart
    · exact valid_of_mem_parts h.1.1 hpart
    · exact valid_of_mem_partsAll h.2 hpart

end

end Expr

/-! ### Sites -/

/-- Whether the expression of a site keeps the rules there. -/
def Site.Valid (Φ : Headings) (site : Site α) : Prop :=
  ∃ Γ, site.1.Matches Γ ∧ site.2.Valid Γ Φ

mutual

theorem Init.valid_of_mem_exprs {known : Bool} {dims : List Int} {used : Nat} : ∀ {i : Init α}
    {e : Expr α}, Init.ItemValid Γ Φ known dims used i → e ∈ i.exprs → e.Valid Γ Φ
  | .expr e, e', h, he => by
    obtain rfl := List.mem_singleton.mp he
    exact h.2.1.1
  | .list items l, e, h, he => Init.valid_of_mem_exprsAll h.2.2 he

theorem Init.valid_of_mem_exprsAll {known : Bool} {dims : List Int} {used : Nat} :
    ∀ {items : List (Init α)} {e : Expr α}, Init.ItemsValid Γ Φ known dims used items →
      e ∈ Init.exprsAll items → e.Valid Γ Φ
  | [], _, _, he => nomatch he
  | item :: items, e, h, he => by
    rcases List.mem_append.mp he with he | he
    · exact Init.valid_of_mem_exprs h.1 he
    · exact Init.valid_of_mem_exprsAll h.2 he

end

variable {B : Bindings α}

theorem Decl.sites_valid {d : Decl α} {isGlobal : Bool} (hB : B.Matches Γ)
    (h : d.Valid Γ Φ isGlobal) : ∀ site ∈ d.sites B, site.Valid Φ := by
  intro site hsite
  obtain ⟨e, he, rfl⟩ := List.mem_map.mp hsite
  refine ⟨Γ, hB, ?_⟩
  obtain ⟨⟨hdims, -⟩, hinit⟩ := h
  rcases List.mem_append.mp he with he | he
  · exact (hdims e he).1
  · cases hi : d.init with
    | none =>
      rw [hi] at he
      cases he
    | some i =>
      rw [hi] at he hinit
      cases i with
      | expr e' =>
        obtain rfl := List.mem_singleton.mp he
        exact hinit.2.1.1
      | list items l => exact Init.valid_of_mem_exprsAll hinit.2 he

theorem Decl.allSites_valid {ds : List (Decl α)} (hB : B.Matches Γ)
    (h : Decl.AllValid Φ Γ ds) : ∀ site ∈ Decl.allSites B ds, site.Valid Φ := by
  induction ds generalizing B Γ with
  | nil => exact nofun
  | cons d ds ih =>
    intro site hsite
    rcases List.mem_append.mp hsite with hsite | hsite
    · exact d.sites_valid hB h.1 site hsite
    · exact ih (hB.bind d) h.2 site hsite

mutual

theorem Stmt.sites_valid {returns : Base} : ∀ {s : Stmt α} {B : Bindings α} {Γ : Context}
    {inLoop : Bool}, B.Matches Γ → s.Valid Γ Φ returns inLoop →
      ∀ site ∈ s.sites B, site.Valid Φ
  | .empty _, _, _, _, _, _, _, hsite | .breakLoop _, _, _, _, _, _, _, hsite
  | .continueLoop _, _, _, _, _, _, _, hsite
  | .returnNothing _, _, _, _, _, _, _, hsite => nomatch hsite
  | .expr e _, _, Γ, _, hB, h, site, hsite => by
    obtain rfl := List.mem_singleton.mp hsite
    exact ⟨Γ, hB, h⟩
  | .returnValue e _, _, Γ, _, hB, h, site, hsite => by
    obtain rfl := List.mem_singleton.mp hsite
    exact ⟨Γ, hB, h.1⟩
  | .block items _, _, _, _, hB, h, site, hsite =>
    Item.allSites_valid hB h.2 site hsite
  | .ifThen e body _, _, Γ, _, hB, h, site, hsite
  | .whileLoop e body _, _, Γ, _, hB, h, site, hsite => by
    rcases List.mem_cons.mp hsite with rfl | hsite
    · exact ⟨Γ, hB, h.1.1⟩
    · exact Stmt.sites_valid hB h.2 site hsite
  | .ifElse e body otherwise _, _, Γ, _, hB, h, site, hsite => by
    rcases List.mem_cons.mp hsite with rfl | hsite
    · exact ⟨Γ, hB, h.1.1⟩
    · rcases List.mem_append.mp hsite with hsite | hsite
      · exact Stmt.sites_valid hB h.2.1 site hsite
      · exact Stmt.sites_valid hB h.2.2 site hsite

theorem Item.sites_valid {returns : Base} : ∀ {item : Item α} {B : Bindings α} {Γ : Context}
    {inLoop : Bool}, B.Matches Γ → item.Valid Γ Φ returns inLoop →
      ∀ site ∈ item.sites B, site.Valid Φ
  | .decl d, _, _, _, hB, h, site, hsite => d.sites_valid hB h site hsite
  | .stmt _, _, _, _, hB, h, site, hsite => Stmt.sites_valid hB h site hsite

theorem Item.allSites_valid {returns : Base} : ∀ {items : List (Item α)} {B : Bindings α}
    {Γ : Context} {inLoop : Bool}, B.Matches Γ → Item.AllValid Γ Φ returns inLoop items →
      ∀ site ∈ Item.allSites B items, site.Valid Φ
  | [], _, _, _, _, _, _, hsite => nomatch hsite
  | item :: _, _, _, _, hB, h, site, hsite => by
    rcases List.mem_append.mp hsite with hsite | hsite
    · exact Item.sites_valid hB h.1 site hsite
    · exact Item.allSites_valid (hB.bindItem item) h.2 site hsite

end

theorem Function.sites_valid {f : Function α} (hB : B.Matches Γ) (h : f.Valid Γ Φ) :
    ∀ site ∈ f.sites B, site.Valid Φ := by
  intro site hsite
  rcases List.mem_append.mp hsite with hsite | hsite
  · obtain ⟨q, hq, hsite⟩ := List.mem_flatMap.mp hsite
    obtain ⟨e, he, rfl⟩ := List.mem_map.mp hsite
    exact ⟨Γ, hB, ((h.params q hq).1 e he).1⟩
  · exact Item.allSites_valid ((Bindings.Matches.parameters Γ f).append hB) h.body site hsite

/-- **A program that keeps the rules keeps them at every site.** -/
theorem Program.sites_valid {p : Program α} (h : p.Valid) :
    ∀ site ∈ p.sites, site.Valid p.headings := by
  intro site hsite
  rcases List.mem_append.mp hsite with hsite | hsite
  · exact Decl.allSites_valid .nil h.globals site hsite
  · obtain ⟨f, hf, hsite⟩ := List.mem_flatMap.mp hsite
    exact f.sites_valid (Bindings.Matches.globals p) (h.functions f hf) site hsite

/-- What stands in such a program, and is more than a name, is valid there. -/
theorem Program.Contains.valid {p : Program α} {e : Expr α} (he : p.Contains B e) (h : p.Valid)
    (hname : ¬ e.IsName) : ∃ Γ, B.Matches Γ ∧ e.Valid Γ p.headings := by
  obtain ⟨e₀, hsite, hpart⟩ := he
  obtain ⟨Γ, hB, hvalid⟩ := p.sites_valid h _ hsite
  exact ⟨Γ, hB, (Expr.valid_of_mem_parts hvalid hpart).resolve_right hname⟩

end SysYFront
