import Solo.Proofs.Accepted

/-!
# The order of demands

Types are found when they are first asked for. If a program is checked without a report, demands for
types and signatures before the check change nothing that it finds, unless in their wake a demand
comes to a singleton `x.type` while the type of `x` is looked for. That is reported, though the
check alone forms `x.type` before it looks for the type of `x`.
-/

namespace Solo

/-- A demand for the type of a symbol or the signature of a function of the program. -/
def Context.Requests (cx : Context) : Demand → Prop
  | .typeOf _ => True
  | .signature d => .stmt (.fn d) ∈ cx.program.nodes
  | .aliasTarget _ _ => False

structure Checker.Alike (c F : Checker) : Prop where
  symbolTypes : ∀ x, c.symbolTypes.find? x = F.symbolTypes.find? x
  aliasTargets : ∀ x, c.aliasTargets.find? x = F.aliasTargets.find? x
  nodeTypes : ∀ i, c.nodeTypes.find? i = F.nodeTypes.find? i
  signatures : ∀ i, c.signatures.find? i = F.signatures.find? i

theorem Table.Within.antisymm {κ ν : Type} [DecidableEq κ] {t u : Table κ ν} (below : t.Within u)
    (above : u.Within t) (k : κ) : t.find? k = u.find? k := by
  cases found : t.find? k with
  | some v => exact (below k v found).symm
  | none =>
    by_contra other
    obtain ⟨v, found'⟩ := Option.ne_none_iff_exists'.mp (Ne.symm other)
    cases (above k v found').symm.trans found

section
variable {cx : Context} {F : Checker}

theorem Context.Requests.concerns {q : Demand} (requests : cx.Requests q) : cx.Concerns q := by
  cases q with
  | signature d => exact requests
  | typeOf x => trivial
  | aliasTarget x span => exact requests.elim

/-- The tables of an error-free check answer all requests. -/
theorem Certified.answered (cert : Certified cx.toBoundProgram F) {q : Demand}
    (requests : cx.Requests q) : cx.Answered F q := by
  cases q with
  | typeOf x =>
    by_cases typable : cx.Typable x
    · obtain ⟨t, found, _⟩ := cert.binding typable.1
      exact .inl (Option.isSome_of_eq_some found)
    · exact .inr ⟨x, rfl, typable⟩
  | signature d =>
    obtain ⟨sig, _, found, _⟩ := cert.fn requests
    exact .inl (Option.isSome_of_eq_some found)
  | aliasTarget x span => exact requests.elim

theorem Context.certified_of_silent (bound : cx.WellBound)
    (run : cx.check (.start cx.names) = .ok ((), F)) (silent : F.diagnostics = #[]) :
    Certified cx.toBoundProgram F := by
  have same : { F with diagnostics := #[] } = F := by
    rw [← silent]
  have checked : cx.checked = .ok ⟨cx, F, F.diagnostics.toList⟩ := by
    rw [Context.checked_of_check run, same]
  exact (Context.checked_certified bound checked (by simp [silent])).2

end

/-- If a program is bound and checked without a report, then it is checked without one after
requests for types and signatures too, in any order, and the same types and signatures are found. Or
a demand that comes up then looks at a singleton `x.type` while the type of `x` is looked for, and
it is reported of this `x` that it needs itself, if the check ends. -/
theorem Draft.requests_change_nothing (d : Draft) (options : Options) (early : List Demand)
    (F : Checker) (clean : (d.context options).Clean)
    (requests : ∀ q ∈ early, (d.context options).Requests q)
    (run : (d.context options).check (.start (d.context options).names) = .ok ((), F))
    (silent : F.diagnostics = #[]) :
    let cx := d.context options
    let visited := cx.visit early [] (cx.oracle cx.questionBound) (.start cx.names)
    (∃ c, visited = .ok ((), c) ∧ c.diagnostics = #[] ∧ c.Alike F) ∨
    ∃ x, (∃ n q s, cx.Occurs early [] n q s ∧ .typeOf x ∈ q.goal :: s.pursuits.map (·.goal) ∧
      cx.Writes (cx.seen q) x) ∧ ∀ c, visited = .ok ((), c) → cx.Tripped x c := by
  intro cx visited
  have bound : cx.WellBound := Source.bind_wellBound _ (Source.anchor_nodup 0 d.text d.stmts) clean
  have ground := d.grounded options
  have cert := Context.certified_of_silent bound run silent
  have plain : cx.visit [] [] (cx.oracle cx.questionBound) (.start cx.names) = .ok ((), F) := by
    rw [← cx.check_eq]
    exact run
  have tame : Tame cx (cx.oracle cx.questionBound) (cx.visit [] []) :=
    ((Faithful.oracle ground cx.questionBound).thorough ground).visit ground nofun
  have orderly := ((tame _ (.start cx cx.names)).run () F plain).1.orderly
  have proper := cert.proper (d.wellNested options) orderly.typable
  have concern : ∀ q ∈ early, cx.Concerns q := fun q member => (requests q member).concerns
  have none : ∀ q ∈ ([] : List Demand), cx.Concerns q := nofun
  have sized := d.sized options
  rcases proper.visits bound sized none plain (by simp [silent]) concern
    fun q member => cert.answered (requests q member) with ⟨c, run', concurs⟩ | astray
  · -- The check alone is made again after the one with the requests.
    have silent' : c.diagnostics = #[] :=
      Array.eq_empty_iff_forall_not_mem.mpr fun d member =>
        Array.not_mem_empty d (silent ▸ concurs.told d member)
    refine .inl ⟨c, run', silent', ?_⟩
    have proper' := proper.mono concurs.symbolTypes concurs.nodeTypes
    rcases proper'.visits bound sized concern run' (by simp [silent']) none nofun with
      ⟨F', again, concurs'⟩ | ⟨_, _, tripped⟩
    · cases plain.symm.trans again
      exact {
        symbolTypes := concurs.symbolTypes.antisymm concurs'.symbolTypes
        aliasTargets := concurs.aliasTargets.antisymm concurs'.aliasTargets
        nodeTypes := concurs.nodeTypes.antisymm concurs'.nodeTypes
        signatures := concurs.signatures.antisymm concurs'.signatures }
    · obtain ⟨_, _, _, _, reported⟩ := tripped F plain
      rw [silent] at reported
      exact absurd reported (Array.not_mem_empty _)
  · exact .inr astray

/-- A draft with a function whose result is inferred, and a binding that is initialized with a call
of it. -/
def Draft.inferred : Draft where
  text := "val x = f(2) def f(n: Int) = n"
  stmts :=
    [.val ⟨[], .val, ⟨[], "x"⟩, none, .call [] ⟨[], "f"⟩ [.lit ⟨[], .int 2⟩]⟩,
      .fn ⟨[], ⟨[], "f"⟩, [⟨[], ⟨[], "n"⟩, .refer [] ⟨[], "Int"⟩⟩], none, .name ⟨[], "n"⟩⟩]

/-- Its signature and the type of the binding are found before the check as in it. -/
theorem Draft.requests_change_nothing_inferred :
    let cx := Draft.inferred.context default
    let early := cx.program.functions.map Demand.signature ++ [.typeOf 2]
    ∃ F c, cx.check (.start cx.names) = .ok ((), F) ∧ early.length = 2 ∧
      cx.visit early [] (cx.oracle cx.questionBound) (.start cx.names) = .ok ((), c) ∧
      c.diagnostics = #[] ∧ c.Alike F ∧ F.symbolTypes.find? 2 = some (.intrinsic .int) := by
  intro cx early
  have plain : (match cx.check (.start cx.names) with
    | .error _ => false
    | .ok (_, c) => c.diagnostics.size == 0 &&
      c.symbolTypes.find? 2 == some (.intrinsic .int)) = true := by decide +kernel
  have before : (match cx.visit early [] (cx.oracle cx.questionBound) (.start cx.names) with
    | .error _ => false
    | .ok (_, c) => c.diagnostics.size == 0) = true := by decide +kernel
  split at plain
  · cases plain
  next F run =>
  simp only [Bool.and_eq_true, beq_iff_eq] at plain
  have clean : cx.Clean := by
    rw [BoundProgram.Clean]
    decide +kernel
  have requests : ∀ q ∈ early, cx.Requests q := by
    intro q member
    rcases List.mem_append.mp member with signature | type
    · obtain ⟨d, inside, rfl⟩ := List.mem_map.mp signature
      exact Program.node_of_function inside
    · cases List.mem_singleton.mp type
      trivial
  refine ⟨F, ?_⟩
  rcases Draft.requests_change_nothing .inferred default early F clean requests run
    (Array.eq_empty_of_size_eq_zero plain.1) with ⟨c, visited, silent, alike⟩ | ⟨_, _, tripped⟩
  · exact ⟨c, run, by decide +kernel, visited, silent, alike, plain.2⟩
  · split at before
    · cases before
    · next c visited =>
      obtain ⟨_, _, _, _, reported⟩ := tripped c visited
      rw [Array.eq_empty_of_size_eq_zero (eq_of_beq before)] at reported
      exact absurd reported (Array.not_mem_empty _)

/-- An overload of `f` names the binding whose initializer calls `f`. -/
def Draft.selfPath : Draft where
  text := "def f(p: x.type): Int = 1 def f(p: Int): Int = 2 val x = f(3)"
  stmts :=
    [.fn ⟨[], ⟨[], "f"⟩, [⟨[], ⟨[], "p"⟩, .singleton [] (.name ⟨[], "x"⟩)⟩],
        some (.refer [] ⟨[], "Int"⟩), .lit ⟨[], .int 1⟩⟩,
      .fn ⟨[], ⟨[], "f"⟩, [⟨[], ⟨[], "p"⟩, .refer [] ⟨[], "Int"⟩⟩],
        some (.refer [] ⟨[], "Int"⟩), .lit ⟨[], .int 2⟩⟩,
      .val ⟨[], .val, ⟨[], "x"⟩, none, .call [] ⟨[], "f"⟩ [.lit ⟨[], .int 3⟩]⟩]

/-- Checked from its first statement on it is accepted and `x` is an `Int`. If the type of `x` is
demanded first, two errors are reported and `x` has the error type. -/
theorem early_demand_reported :
    let cx := Draft.selfPath.context default
    (cx.diagnostics.length = 0 ∧ cx.Poses (.typeOf 3)) ∧
    (∃ c, cx.check (.start cx.names) = .ok ((), c) ∧ c.diagnostics.size = 0 ∧
      c.symbolTypes.find? 3 = some (.intrinsic .int)) ∧
    ∃ c, cx.visit [.typeOf 3] [] (cx.oracle cx.questionBound) (.start cx.names) = .ok ((), c) ∧
      c.diagnostics.size = 2 ∧ c.symbolTypes.find? 3 = some .error := by
  intro cx
  have plain : (match cx.check (.start cx.names) with
    | .error _ => false
    | .ok (_, c) => c.diagnostics.size == 0 &&
      c.symbolTypes.find? 3 == some (.intrinsic .int)) = true := by decide +kernel
  have early : (match cx.visit [.typeOf 3] [] (cx.oracle cx.questionBound) (.start cx.names) with
    | .error _ => false
    | .ok (_, c) => c.diagnostics.size == 2 && c.symbolTypes.find? 3 == some .error) = true := by
    decide +kernel
  refine ⟨⟨by decide +kernel, trivial⟩, ?_, ?_⟩
  · split at plain
    · cases plain
    · next c run =>
      simp only [Bool.and_eq_true, beq_iff_eq] at plain
      exact ⟨c, run, plain⟩
  · split at early
    · cases early
    · next c run =>
      simp only [Bool.and_eq_true, beq_iff_eq] at early
      exact ⟨c, run, early⟩

end Solo
