import Solo.Proofs.CoherentRuns
import Solo.Proofs.Spelling
import Solo.Proofs.WriteOnce

/-!
# What a check leaves behind

A checker starts coherent, and a check keeps it so. After a check the type of every binding is found
whose singleton is entered: such a singleton is the type of a node, so everything around the
binding's declaration has its type, and the block or function that declares the binding has sought
its type.
-/

namespace Solo

section
variable {names : Roster String}

theorem Checker.start_types {t : Ty} :
    t.Filed (.start names) ↔ ∃ k, t = .intrinsic k := by
  rw [Ty.filed_iff]
  constructor
  · rintro ⟨e, member, rfl⟩
    obtain ⟨k, rfl⟩ := InternCache.mem_start.mp member
    exact ⟨k, rfl⟩
  · rintro ⟨k, rfl⟩
    exact ⟨_, InternCache.mem_start.mpr ⟨k, rfl⟩, rfl⟩

theorem Checker.start_filed : Checker.Filed (.start names) where
  interns := InternCache.start_consistent
  texts v inside := by cases inside; contradiction
  symbolTypes := nofun
  aliasTargets := nofun
  nodeTypes := nofun
  signatures := nofun
  witnesses := nofun

end

namespace Context

variable {cx : Context} {c : Checker}

theorem Coherent.start (cx : Context) : cx.Coherent (.start cx.names) where
  orderly := .start cx cx.names
  names := .refl _
  filed := Checker.start_filed
  compared := nofun
  blocks _ _ _ _ := nofun
  signed _ _ := nofun

theorem resolver_eq (cx : Context) : cx.resolver = cx.asking (cx.oracle cx.questionBound) :=
  Resolver.ofDepth_eq _ _

/-- The resolver of a program asks an oracle that keeps a checker coherent. -/
theorem keeper (ground : cx.Grounded) (spelled : cx.Spelled) :
    Keeper cx (cx.oracle cx.questionBound) :=
  .oracle ground spelled cx.questionBound

end Context

/-! ### Who declares a binding -/

section
variable {p : BoundProgram} {L K : List (Node Mark)} {n k : Node Mark}

theorem BoundProgram.At.param_parent {q : Param Mark} (place : p.At L (.param q)) :
    ∃ d M, L = .stmt (.fn d) :: M ∧ q ∈ d.params ∧ p.At M (.stmt (.fn d)) := by
  rcases Under.parent place with ⟨_, wrong⟩ | ⟨j, M, rfl, inside, under⟩
  · cases wrong
  cases j with
  | stmt s =>
    cases s with
    | fn d => exact ⟨d, M, rfl, by simpa [Node.parts] using inside, under⟩
    | _ => simp [Node.parts] at inside
  | expr e => cases e <;> simp [Node.parts] at inside
  | pat q => cases q <;> simp [Node.parts] at inside
  | ty t => cases t <;> simp [Node.parts] at inside
  | _ => simp [Node.parts] at inside

end

namespace Context

variable {cx : Context} {c : Checker}

/-- Whoever declares a binding has it sought, once everything around has its type. -/
theorem Coherent.sought (coherent : cx.Coherent c) (nested : cx.WellNested)
    (checked : ∀ s ∈ cx.program.stmts, cx.SoughtBy c s) {x : SymbolId}
    (live : cx.Live (Entered [] c) x) : cx.Sought c x := by
  intro typable
  obtain ⟨d, ds, decls⟩ := List.exists_cons_of_ne_nil typable.2
  have member : d ∈ (cx.symbol x).decls := by rw [decls]; exact List.mem_cons_self
  obtain ⟨L, place, around⟩ := live d member
  have stmt : ∀ {s M}, cx.At M (.stmt s) → (∀ n ∈ M, Entered [] c n) → cx.SoughtBy c s := by
    intro s M place around
    rcases place.stmt_parent with top | ⟨K, m, ss, tail, rfl, member, place'⟩
    · exact checked s top
    · have noted : c.noted m.id = true := (around _ List.mem_cons_self _ rfl).resolve_left nofun
      exact coherent.blocks m ss tail place'.node noted s member
  have role := nested.role x d member
  cases d with
  | val v =>
    obtain ⟨y, declares, _⟩ := nested.introduced L _ place _ rfl
    cases declares.find?.symm.trans (nested.target x _ member)
    exact stmt place around x declares.target typable
  | param q =>
    obtain ⟨f, M, rfl, inside, place'⟩ := place.param_parent
    exact stmt place' (fun n below => around n (List.mem_cons_of_mem _ below)) q inside x
      (nested.target x _ member) typable
  | _ =>
    have binding := typable.1
    cases own : (cx.symbol x).role <;> simp_all [Role.thaw, Role.isBinding, Decl.role]

/-- After a check, every binding whose singleton is entered has its type. -/
structure Complete (cx : Context) (c : Checker) : Prop where
  coherent : cx.Coherent c
  idle : c.pursuits = []
  paths : ∀ x, (Ty.path x).Filed c → cx.Typable x → (c.symbolTypes.find? x).isSome = true

theorem check_complete (nested : cx.WellNested) (spelled : cx.Spelled)
    (run : cx.check (.start cx.names) = .ok ((), c)) : cx.Complete c := by
  have checks := run
  rw [check, resolver_eq] at checks
  obtain ⟨coherent, onward, checked⟩ := (cx.keeper nested.toGrounded spelled).checkStmts
    nested.toGrounded spelled cx.program.stmts (.start cx) (List.subset_append_left _ _) () c checks
  have idle : c.pursuits = [] := List.forall₂_nil_left_iff.mp onward.marks
  refine ⟨coherent, idle, fun x filed typable => ?_⟩
  have tidy : cx.Tidy [] [] c := by
    rcases (check_safe nested).cases with ⟨_, c', run', tidy, _⟩ | fault
    · cases run.symm.trans run'
      exact tidy
    · cases run.symm.trans fault
  have live : cx.Live (Entered [] c) x := by
    rcases onward.paths x filed with early | ⟨i, found⟩
    · obtain ⟨k, wrong⟩ := Checker.start_types.mp early
      cases wrong
    · exact tidy.live.nodeTypes i _ found x rfl
  rcases coherent.sought nested checked live typable with settled | pursued
  · exact settled
  · rw [idle] at pursued
    cases pursued

end Context

end Solo
