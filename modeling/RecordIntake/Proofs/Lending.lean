import RecordIntake.Pool.Lending
import RecordIntake.Proofs.Bookkeeping
import RecordIntake.Proofs.Environment

/-!
What lending, taking back and asking do, each split into what becomes of the bookkeeping and what
becomes of everything else.  The latter stays steady: a pool never touches messages or commits.
-/
namespace RecordIntake
namespace Pool

variable {p p' : Pool} {env env' : Environment}

/-- The connection that a supply stands for. -/
def Supply.Yields (p : Pool) : Supply → Connection → Prop
  | .idle i, c => c = i.connection
  | .fresh signal partition, c =>
    c = ⟨signal.connection, signal, p.connectionSubscription partition, []⟩

theorem steady_gaugeOutstanding (p : Pool) (env : Environment) :
    env.Steady (p.gaugeOutstanding env) := .of_eq rfl rfl

theorem steady_openConnection (p : Pool) (env : Environment) (signal : Signal)
    (partition : Option Partition) : env.Steady (p.openConnection env signal partition).1 := by
  have h := env.steady_connect signal (p.connectionSubscription partition)
  unfold openConnection
  split
  · rename_i env₁ c he
    rw [he] at h
    exact h.trans (env₁.steady_count _)
  · rename_i env₁ e he
    rw [he] at h
    exact h

theorem openConnection_ok {signal : Signal} {partition : Option Partition} {c : Connection}
    (h : p.openConnection env signal partition = (env', .ok c)) :
    c = ⟨signal.connection, signal, p.connectionSubscription partition, []⟩ := by
  unfold openConnection at h
  split at h
  · rename_i env₁ c' he
    cases h
    exact Environment.connect_ok he
  · cases h

/-! ## Leases -/

theorem steady_startObtain (p : Pool) (env : Environment) :
    env.Steady (p.startObtain env).1 := by
  unfold startObtain
  split
  · exact .refl env
  · split
    rename_i p₁ expired he
    split
    · exact (env.steady_disconnectAll ..).trans (Environment.steady_count _ _)
    · rename_i p₂ o ho
      exact (p₂.steady_gaugeOutstanding env).trans
        ((Environment.steady_disconnectAll ..).trans (Environment.steady_disconnectAll ..))

theorem startObtain_none (h : p.startObtain env = (env', p', none)) :
    p' = p ∨ p' = (p.takeExpired env.now).1 := by
  unfold startObtain at h
  split at h
  · cases h
    exact .inl rfl
  · split at h
    rename_i p₁ expired he
    split at h
    · rename_i p₂ ho
      cases h
      rw [he]
      exact .inr (offer_eq_none ho)
    · cases h

theorem startObtain_some {o : Offer} (h : p.startObtain env = (env', p', some o)) :
    p.closed = false ∧ (p.takeExpired env.now).1.offer = (p', some o) := by
  unfold startObtain at h
  split at h
  · cases h
  · rename_i hopen
    split at h
    rename_i p₁ expired he
    split at h
    · cases h
    · rename_i p₂ o' ho
      cases h
      rw [he]
      exact ⟨Bool.eq_false_iff.mpr hopen, ho⟩

theorem steady_checkIn (p : Pool) (env : Environment) (lease : LeaseId) (c : Option Connection)
    (discard : Bool) : env.Steady (p.checkIn env lease c discard).1 := by
  unfold checkIn
  split
  rename_i p₁ returned he
  split
  · exact (p₁.steady_gaugeOutstanding env).trans (Environment.steady_lower ..)
  · exact (p₁.steady_gaugeOutstanding env).trans (Environment.steady_disconnect ..)
  · exact p₁.steady_gaugeOutstanding env

theorem checkIn_pool (p : Pool) (env : Environment) (lease : LeaseId) (c : Option Connection)
    (discard : Bool) :
    (p.checkIn env lease c discard).2 = (p.takeBack lease c discard env.now).1 := by
  unfold checkIn
  split
  rename_i p₁ returned he
  rw [he]
  split <;> rfl

theorem steady_supplyConnection (p : Pool) (env : Environment) (s : Supply) :
    env.Steady (Supply.connection p env s).1 := by
  cases s with
  | idle i => exact .refl env
  | fresh signal partition => exact p.steady_openConnection env signal partition

theorem supplyConnection_ok {s : Supply} {c : Connection}
    (h : Supply.connection p env s = (env', .ok c)) : Supply.Yields p s c := by
  cases s with
  | idle i =>
    cases h
    rfl
  | fresh signal partition => exact openConnection_ok h

theorem steady_finishObtain (p : Pool) (env : Environment) (o : Offer) (sink : String) :
    env.Steady (p.finishObtain env o sink).1 := by
  have h := p.steady_supplyConnection env o.supply
  unfold finishObtain
  split
  · rename_i env₁ c he
    rw [he] at h
    exact h
  · rename_i env₁ e he
    rw [he] at h
    exact h.trans (p.steady_checkIn ..)

theorem finishObtain_ok {o : Offer} {sink : String} {l : Lease}
    (h : p.finishObtain env o sink = (env', p', .ok l)) :
    p' = p ∧ ∃ c, Supply.Yields p o.supply c ∧
      l = Lease.issue o.lease c p.reader p.settings sink env'.now := by
  unfold finishObtain at h
  split at h
  · rename_i env₁ c he
    cases h
    exact ⟨rfl, c, supplyConnection_ok he, rfl⟩
  · cases h

theorem finishObtain_error {o : Offer} {sink : String} {e : IntakeError}
    (h : p.finishObtain env o sink = (env', p', .error e)) :
    ∃ now, p' = (p.takeBack o.lease none true now).1 := by
  unfold finishObtain at h
  split at h
  · cases h
  · rename_i env₁ e' he
    cases h
    exact ⟨env₁.now, p.checkIn_pool env₁ o.lease none true⟩

/-! ## Queries -/

theorem supplyQuery_cases (p : Pool) :
    p.supplyQuery = (p, none) ∨
      p.closed = false ∧ p.supplyQuery = (p.supplyAny.1, some p.supplyAny.2) := by
  unfold supplyQuery
  split
  · exact .inl rfl
  · rename_i h
    exact .inr ⟨Bool.eq_false_iff.mpr h, rfl⟩

theorem steady_query (p : Pool) (env : Environment) (s : Supply) :
    env.Steady (Supply.query p env s).1 := by
  cases s with
  | idle i => exact .refl env
  | fresh signal partition =>
    have h := p.steady_openConnection env signal partition
    unfold Supply.query
    dsimp only
    split <;> rename_i he <;> rw [he] at h <;> exact h

theorem query_ok {s : Supply} {q : Query} (h : Supply.query p env s = (env', .ok q)) :
    Supply.Yields p s q.connection ∧ q.partition = (Supply.loan s).partition := by
  cases s with
  | idle i =>
    cases h
    exact ⟨rfl, rfl⟩
  | fresh signal partition =>
    unfold Supply.query at h
    dsimp only at h
    split at h
    · rename_i env₁ c he
      cases h
      exact ⟨openConnection_ok he, rfl⟩
    · cases h

theorem steady_returnQuery (p : Pool) (env : Environment) (q : Query) (faulty : Bool) :
    env.Steady (p.returnQuery env q faulty).1 := by
  unfold returnQuery
  split
  · exact env.steady_disconnect ..
  · exact .refl env

theorem returnQuery_pool (p : Pool) (env : Environment) (q : Query) (faulty : Bool) :
    (p.returnQuery env q faulty).2 = (p.endQuery q faulty).1 := by
  unfold returnQuery
  split <;> rename_i he <;> rw [he]

/-! ## Eviction and closing -/

theorem steady_evictIdle (p : Pool) (env : Environment) : env.Steady (p.evictIdle env).1 :=
  env.steady_disconnectAll ..

theorem steady_close (p : Pool) (env : Environment) : env.Steady (p.close env).1 :=
  env.steady_disconnectAll ..

end Pool
end RecordIntake
