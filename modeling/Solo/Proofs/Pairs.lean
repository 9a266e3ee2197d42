import Solo.Proofs.Grafts

/-!
# Two checks side by side

An action of the second check `Tends` to a result if it finds it in every state that agrees with the
tables of the first. Two actions are a `Pair` if the second tends to the counterpart of what the
first yields by the tables. Where the first would report an error it yields nothing, so nothing is
asked of the second.
-/

namespace Solo

instance : Nonempty Kind := ⟨.error⟩

instance : Nonempty Signature :=
  have name : Ident Mark := ⟨⟨0, default, []⟩, ""⟩
  ⟨⟨name.mark, name, [], none, .name name⟩, 0, [], .error⟩

namespace Graft

variable (g : Graft)

/-- A state of the second check that agrees with the tables, if nothing was found to need itself. No
alias with a symbol in `A` is being followed. -/
structure Tracks (A : Set SymbolId) (c : Checker) : Prop where
  upright : g.cx'.Upright c
  agrees : g.Ahead c → g.Agrees c
  clear : ∀ x ∈ A, ∀ p ∈ c.pursuits, p.goal ≠ .targetOf (g.ρ x)

/-- From states that agree an action leads to such states. Its result satisfies `Q`, unless
something needs itself. -/
def Tends (A : Set SymbolId) {β : Type} (b : Check β) (Q : β → Prop) : Prop :=
  ∀ c, g.Tracks A c → ∀ y c₁, b c = .ok (y, c₁) →
    g.Tracks A c₁ ∧ g.cx'.Strides c c₁ ∧ (g.Ahead c₁ → Q y)

/-- An action of the first check, given the types of all nodes but `skip`, and one of the second
that tends to a result related by `R` to what it yields, if `P` holds. -/
structure Pair (skip : Option NodeId) (P : Prop) {α β : Type} (a : Check α) (b : Check β)
    (R : α → β → Prop) : Prop where
  own : g.cx.Abides g.F a
  progress : g.cx'.Striding b
  leads : P → ∀ x, g.cx.Yields g.F skip a x → g.Tends .univ b (R x)

end Graft

section
variable {g : Graft} {c c₁ : Checker} {A B : Set SymbolId} {skip : Option NodeId} {P P' : Prop}
  {α α' β β' : Type} {a : Check α} {b : Check β} {f : α → Check α'} {k : β → Check β'}
  {Q Q' : β → Prop} {R R' : α → β → Prop} {S : α' → β' → Prop}

namespace Graft

/-! ### Actions of the second check -/

theorem Tracks.later (tracks : g.Tracks A c) (upright : g.cx'.Upright c₁)
    (agrees : g.Ahead c₁ → g.Agrees c₁) (marks : Checker.Marks c.pursuits c₁.pursuits) :
    g.Tracks A c₁ where
  upright := upright
  agrees := agrees
  clear x member p inside := by
    obtain ⟨q, inside', same⟩ := marks.mem_goal inside
    exact same ▸ tracks.clear x member q inside'

theorem Tracks.mono (tracks : g.Tracks B c) (fewer : A ⊆ B) : g.Tracks A c where
  upright := tracks.upright
  agrees := tracks.agrees
  clear x member := tracks.clear x (fewer member)

namespace Tends

theorem striding (striding : g.cx'.Striding b)
    (leads : ∀ c, g.Tracks A c → g.Agrees c → ∀ y c₁, b c = .ok (y, c₁) → g.Ahead c₁ →
      g.Agrees c₁ ∧ Q y) : g.Tends A b Q := by
  intro c tracks y c₁ run
  obtain ⟨upright, strides⟩ := striding c tracks.upright y c₁ run
  have leads (ahead : g.Ahead c₁) : g.Agrees c₁ ∧ Q y :=
    leads c tracks (tracks.agrees (ahead.before strides)) y c₁ run ahead
  exact ⟨tracks.later upright (fun ahead => (leads ahead).1) strides.marks, strides,
    fun ahead => (leads ahead).2⟩

theorem pure {y : β} (holds : Q y) : g.Tends A (Pure.pure y : Check β) Q := by
  intro c tracks y' c₁ run
  cases run
  exact ⟨tracks, .refl tracks.upright.orderly, fun _ => holds⟩

theorem bind {Q' : β' → Prop} (first : g.Tends A b Q) (later : ∀ y, g.cx'.Striding (k y))
    (rest : ∀ y, Q y → g.Tends A (k y) Q') : g.Tends A (b >>= k) Q' := by
  intro c tracks z c₂ run
  obtain ⟨y, c₁, run₁, run₂⟩ := Check.bind_ok run
  obtain ⟨tracks₁, strides₁, holds⟩ := first c tracks y c₁ run₁
  obtain ⟨upright, strides₂⟩ := later y c₁ tracks₁.upright z c₂ run₂
  have rest (ahead : g.Ahead c₂) := rest y (holds (ahead.before strides₂)) c₁ tracks₁ z c₂ run₂
  exact ⟨tracks₁.later upright (fun ahead => (rest ahead).1.agrees ahead) strides₂.marks,
    strides₁.trans strides₂, fun ahead => (rest ahead).2.2 ahead⟩

theorem imp (tends : g.Tends A b Q) (gives : ∀ y, Q y → Q' y) : g.Tends A b Q' := by
  intro c tracks y c₁ run
  obtain ⟨tracks₁, strides, holds⟩ := tends c tracks y c₁ run
  exact ⟨tracks₁, strides, fun ahead => gives y (holds ahead)⟩

theorem mono (tends : g.Tends A b Q) (fewer : A ⊆ B) : g.Tends B b Q := by
  intro c tracks y c₁ run
  obtain ⟨tracks₁, strides, holds⟩ := tends c (tracks.mono fewer) y c₁ run
  exact ⟨tracks.later tracks₁.upright tracks₁.agrees strides.marks, strides, holds⟩

theorem of_proceeds (proceeds : Check.Proceeds (g.Tracks A) g.cx'.Strides b) :
    g.Tends A b fun _ => True := by
  intro c tracks y c₁ run
  obtain ⟨tracks₁, strides⟩ := proceeds c tracks y c₁ run
  exact ⟨tracks₁, strides, fun _ => trivial⟩

theorem with_end (tends : g.Tends A b Q)
    (gives : ∀ c, g.Tracks A c → ∀ y c₁, b c = .ok (y, c₁) → g.Agrees c₁ → g.Ahead c₁ → Q' y) :
    g.Tends A b Q' := by
  intro c tracks y c₁ run
  obtain ⟨tracks₁, strides, _⟩ := tends c tracks y c₁ run
  exact ⟨tracks₁, strides, fun ahead => gives c tracks y c₁ run (tracks₁.agrees ahead) ahead⟩

end Tends

/-! ### Pairs -/

namespace Pair

theorem weaken (pair : g.Pair skip P a b R) (given : P' → P) (gives : ∀ x y, P' → R x y → R' x y) :
    g.Pair skip P' a b R' where
  own := pair.own
  progress := pair.progress
  leads holds x yields := (pair.leads (given holds) x yields).imp fun y => gives x y holds

theorem pure {x : α} {y : β} (related : P → R x y) :
    g.Pair skip P (Pure.pure x : Check α) (Pure.pure y : Check β) R where
  own := g.recalled.located.pure x
  progress c upright z c₁ run := by
    cases run
    exact ⟨upright, .refl upright.orderly⟩
  leads holds z yields := by
    obtain rfl := yields.pure
    exact .pure (related holds)

theorem striding_bind (first : g.cx'.Striding b) (rest : ∀ y, g.cx'.Striding (k y)) :
    g.cx'.Striding (b >>= k) := by
  intro c upright z c₂ run
  obtain ⟨y, c₁, run₁, run₂⟩ := Check.bind_ok run
  obtain ⟨upright₁, strides₁⟩ := first c upright y c₁ run₁
  obtain ⟨upright₂, strides₂⟩ := rest y c₁ upright₁ z c₂ run₂
  exact ⟨upright₂, strides₁.trans strides₂⟩

theorem bind [Nonempty α] [Nonempty β] (first : g.Pair skip P a b R)
    (rest : ∀ x y, g.Pair skip (P ∧ R x y) (f x) (k y) S) :
    g.Pair skip P (a >>= f) (b >>= k) S where
  own := first.own.bind fun x => (rest x (Classical.arbitrary β)).own
  progress := striding_bind first.progress fun y => (rest (Classical.arbitrary α) y).progress
  leads holds z yields := by
    obtain ⟨x, yields₁, yields₂⟩ :=
      yields.bind first.own fun x => (rest x (Classical.arbitrary β)).own
    exact (first.leads holds x yields₁).bind
      (fun y => (rest (Classical.arbitrary α) y).progress)
      fun y related => (rest x y).leads ⟨holds, related⟩ z yields₂

/-- What is given may be used to compare the actions. -/
theorem given (own : g.cx.Abides g.F a) (progress : g.cx'.Striding b)
    (pair : P → g.Pair skip True a b R) : g.Pair skip P a b R where
  own := own
  progress := progress
  leads holds := (pair holds).leads trivial

/-- What the first action yields is known. -/
theorem yielding (pair : g.Pair skip P a b R) :
    g.Pair skip P a b fun x y => g.cx.Yields g.F skip a x ∧ R x y where
  own := pair.own
  progress := pair.progress
  leads holds x yields := (pair.leads holds x yields).imp fun _ related => ⟨yields, related⟩

/-- What the second check does at added functions comes before. -/
theorem after_added {γ : Type} {b₀ : Check γ} (striding : g.cx'.Striding b₀)
    (added : P → g.Tends .univ b₀ fun _ => True) (pair : g.Pair skip P a b R) :
    g.Pair skip P a (b₀ >>= fun _ => b) R where
  own := pair.own
  progress := striding_bind striding fun _ => pair.progress
  leads holds x yields := (added holds).bind (fun _ => pair.progress)
    fun _ _ => pair.leads holds x yields

/-- Where the first action yields nothing, the second may do anything. -/
theorem never (own : g.cx.Abides g.F a) (progress : g.cx'.Striding b) (nothing : P → ∀ x, ¬g.cx.Yields g.F skip a x) :
    g.Pair skip P a b R where
  own := own
  progress := progress
  leads holds x yields := absurd yields (nothing holds x)

theorem branch {p q : Prop} [Decidable p] [Decidable q] {a₁ a₂ : Check α} {b₁ b₂ : Check β}
    (same : P → (p ↔ q)) (yes : g.Pair skip (P ∧ p) a₁ b₁ R) (no : g.Pair skip (P ∧ ¬p) a₂ b₂ R) :
    g.Pair skip P (if p then a₁ else a₂) (if q then b₁ else b₂) R where
  own := by
    split
    · exact yes.own
    · exact no.own
  progress := by
    split
    · exact yes.progress
    · exact no.progress
  leads given x yields := by
    by_cases holds : p
    · rw [if_pos holds] at yields
      rw [if_pos ((same given).mp holds)]
      exact yes.leads ⟨given, holds⟩ x yields
    · rw [if_neg holds] at yields
      rw [if_neg (mt (same given).mpr holds)]
      exact no.leads ⟨given, holds⟩ x yields

/-- What is the same on both sides is looked at in turn. -/
theorem alike {γ : Type} {v v' : γ} (same : P → v' = v) (f : γ → Check α) (k : γ → Check β)
    (each : ∀ w, g.Pair skip (P ∧ v = w) (f w) (k w) R) : g.Pair skip P (f v) (k v') R where
  own := (each v).own
  progress := (each v').progress
  leads given x yields := same given ▸ (each v).leads ⟨given, rfl⟩ x yields

/-! ### Lists -/

theorem mapM [Nonempty α'] [Nonempty β'] {E : β → Prop} {D : β' → Prop} {xs : List α}
    {ys : List β} (joins : Joins R E xs ys)
    (each : ∀ x ∈ xs, ∀ y ∈ ys, R x y → g.Pair skip P (f x) (k y) S)
    (striding : ∀ y ∈ ys, g.cx'.Striding (k y))
    (added : ∀ y ∈ ys, E y → P → g.Tends .univ (k y) D) :
    g.Pair skip P (xs.mapM f) (ys.mapM k) (Joins S D) := by
  induction joins with
  | nil => exact .pure fun _ => .nil
  | @both x y xs ys head _ ih =>
    rw [List.mapM_cons, List.mapM_cons]
    refine (each x List.mem_cons_self y List.mem_cons_self head).bind fun x' y' => ?_
    have ih := ih (fun x left y right => each x (List.mem_cons_of_mem _ left) y
        (List.mem_cons_of_mem _ right)) (fun y right => striding y (List.mem_cons_of_mem _ right))
      fun y right => added y (List.mem_cons_of_mem _ right)
    exact (ih.weaken And.left fun _ _ _ rest => rest).bind fun xs' ys' =>
      .pure fun ⟨⟨_, first⟩, rest⟩ => .both first rest
  | @more y xs ys head _ ih =>
    have ih := ih (fun x left y right => each x left y (List.mem_cons_of_mem _ right))
      (fun y right => striding y (List.mem_cons_of_mem _ right))
      fun y right => added y (List.mem_cons_of_mem _ right)
    have more : ∀ y', g.cx'.Striding (ys.mapM k >>= fun ys' => Pure.pure (y' :: ys')) := fun y' =>
      striding_bind ih.progress fun ys' c upright z c₁ run => by
        cases run
        exact ⟨upright, .refl upright.orderly⟩
    rw [List.mapM_cons]
    exact
      { own := ih.own
        progress := striding_bind (striding y List.mem_cons_self) more
        leads := fun given zs yields =>
          (added y List.mem_cons_self head given).bind more fun y' own =>
            (ih.leads given zs yields).bind
              (fun ys' c upright z c₁ run => by
                cases run
                exact ⟨upright, .refl upright.orderly⟩)
              fun ys' rest => .pure (.more own rest) }

theorem filterAuxM {E : β → Prop} {test : α → Check Bool} {test' : β → Check Bool} {xs : List α}
    {ys : List β} (joins : Joins R E xs ys)
    (each : ∀ x ∈ xs, ∀ y ∈ ys, R x y → g.Pair skip P (test x) (test' y) fun b b' => b' = b)
    (striding : ∀ y ∈ ys, g.cx'.Striding (test' y))
    (added : ∀ y ∈ ys, E y → P → g.Tends .univ (test' y) (· = false)) :
    ∀ (P' : Prop) (acc : List α) (acc' : List β), (P' → P) → (P' → List.Forall₂ R acc acc') →
      g.Pair skip P' (xs.filterAuxM test acc) (ys.filterAuxM test' acc') (List.Forall₂ R) := by
  induction joins with
  | nil => exact fun _ acc acc' _ kept => .pure kept
  | @both x y xs ys head _ ih =>
    intro P' acc acc' given kept
    have ih := ih (fun x left y right => each x (List.mem_cons_of_mem _ left) y
        (List.mem_cons_of_mem _ right)) (fun y right => striding y (List.mem_cons_of_mem _ right))
      fun y right => added y (List.mem_cons_of_mem _ right)
    have first := each x List.mem_cons_self y List.mem_cons_self head
    refine (first.weaken given fun _ _ _ same => same).bind fun b b' =>
      ih _ _ _ (fun holds => given holds.1) ?_
    rintro ⟨holds, rfl⟩
    cases b' with
    | true => exact .cons head (kept holds)
    | false => exact kept holds
  | @more y xs ys head _ ih =>
    intro P' acc acc' given kept
    have ih := ih (fun x left y right => each x left y (List.mem_cons_of_mem _ right))
      (fun y right => striding y (List.mem_cons_of_mem _ right))
      fun y right => added y (List.mem_cons_of_mem _ right)
    have rest : ∀ b, g.cx'.Striding (ys.filterAuxM test' (cond b (y :: acc') acc')) := fun b =>
      (ih False acc _ False.elim False.elim).progress
    exact
      { own := (ih P' acc acc' given kept).own
        progress := striding_bind (striding y List.mem_cons_self) rest
        leads := fun holds zs yields =>
          (added y List.mem_cons_self head (given holds)).bind rest fun b out => by
            subst out
            exact (ih P' acc acc' given kept).leads holds zs yields }

/-- Counterparts pass a test alike, and added members do not pass it. -/
theorem filterM {E : β → Prop} {test : α → Check Bool} {test' : β → Check Bool} {xs : List α}
    {ys : List β} (joins : Joins R E xs ys)
    (each : ∀ x ∈ xs, ∀ y ∈ ys, R x y → g.Pair skip P (test x) (test' y) fun b b' => b' = b)
    (striding : ∀ y ∈ ys, g.cx'.Striding (test' y))
    (added : ∀ y ∈ ys, E y → P → g.Tends .univ (test' y) (· = false)) :
    g.Pair skip P (xs.filterM test) (ys.filterM test') (List.Forall₂ R) :=
  (filterAuxM joins each striding added P [] [] id fun _ => .nil).bind fun _ _ =>
    .pure fun ⟨_, pairs⟩ => List.forall₂_reverse_iff.mpr pairs

theorem allM {test : α → Check Bool} {test' : β → Check Bool} {xs : List α} {ys : List β}
    (pairs : List.Forall₂ R xs ys)
    (each : ∀ x y, R x y → g.Pair skip P (test x) (test' y) fun b b' => b' = b) :
    g.Pair skip P (xs.allM test) (ys.allM test') fun b b' => b' = b := by
  induction pairs with
  | nil => exact .pure fun _ => rfl
  | @cons x y xs ys head _ ih =>
    simp only [List.allM]
    refine (each x y head).bind fun b b' => .alike And.right
      (fun v => cond v (xs.allM test) (Pure.pure false))
      (fun v => cond v (ys.allM test') (Pure.pure false)) fun v => ?_
    cases v with
    | true => exact ih.weaken (fun holds => holds.1.1) fun _ _ _ rest => rest
    | false => exact .pure fun _ => rfl

end Pair

end Graft

end

end Solo
