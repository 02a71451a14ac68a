import TradingEngine.KeyedTables
import TradingEngine.Runs

/-!
# Procedures over a durable store

A procedure runs transactions on a durable store and puts questions to the outside
world. A transaction is atomic: it commits, or it raises, changes nothing and ends
the procedure. Between any two of its steps a procedure may lose to others, or to a
crash. A question that was put stays put, whether its answer arrives or not.

A pool holds every call that is under way. Its moves let a new call in, take one
step of one call, deliver one answer or lose one call, in any order. The rules
below are what the safety arguments need: what every committed operation preserves
holds of the store throughout; what a call learnt still holds while nobody else can
change it; and a question that needs a mark made by the asking call is put at most
once for each mark.
-/

namespace TradingEngine.Procedures

open KeyedTables Runs

variable {σ O Q A ε α ι κ : Type}

/-- A program of transactions on a store and of questions. A later step may depend
on the store that the transaction read. -/
inductive Procedure (σ O Q A ε α : Type) where
  | done (result : Except ε α)
  | transact (operation : O) (next : σ → Procedure σ O Q A ε α)
  | ask (question : Q) (next : A → Procedure σ O Q A ε α)

/-- A call under way: about to take a step, or waiting for an answer. -/
inductive Activity (σ O Q A ε α : Type) where
  | running (procedure : Procedure σ O Q A ε α)
  | waiting (next : A → Procedure σ O Q A ε α)

/-- The store, the calls under way under their numbers, the questions put and the
answers received. -/
structure Pool (σ O Q A ε α : Type) where
  store : σ
  calls : Table Nat (Activity σ O Q A ε α)
  entered : Nat
  asked : List (Nat × Q)
  answered : List (Nat × A)

inductive Move (A ι : Type) where
  | enter (request : ι)
  | advance (call : Nat)
  | answer (call : Nat) (reply : A)
  | crash (call : Nat)

/-- What operations do to the store, and the procedure that serves a request. -/
structure System (σ O Q A ε α ι : Type) where
  apply : O → σ → Except ε σ
  serve : ι → Procedure σ O Q A ε α

/-- A pool in which nobody has called yet. -/
def Pool.idle (store : σ) : Pool σ O Q A ε α := ⟨store, ∅, 0, [], []⟩

/-- What can be told without looking into a call. -/
structure Seen (σ Q A : Type) where
  store : σ
  asked : List Q
  answered : List A

def Pool.seen (pool : Pool σ O Q A ε α) : Seen σ Q A :=
  ⟨pool.store, pool.asked.map Prod.snd, pool.answered.map Prod.snd⟩

/-- The transaction that a move would run. -/
def Pool.pending (pool : Pool σ O Q A ε α) : Move A ι → Option O
  | .advance call =>
    match pool.calls.lookup call with
    | some (.running (.transact operation _)) => some operation
    | _ => none
  | _ => none

/-- Calls are numbered in the order in which they enter. -/
def Pool.Numbered (pool : Pool σ O Q A ε α) : Prop :=
  ∀ call activity, pool.calls.lookup call = some activity → call < pool.entered

namespace System

variable (system : System σ O Q A ε α ι)

def step (pool : Pool σ O Q A ε α) : Move A ι → Pool σ O Q A ε α
  | .enter request =>
    { pool with
      calls := pool.calls.insert pool.entered (.running (system.serve request))
      entered := pool.entered + 1 }
  | .advance call =>
    match pool.calls.lookup call with
    | some (.running (.done _)) => { pool with calls := pool.calls.erase call }
    | some (.running (.transact operation next)) =>
      match system.apply operation pool.store with
      | .ok after =>
        { pool with
          store := after
          calls := pool.calls.insert call (.running (next pool.store)) }
      | .error _ => { pool with calls := pool.calls.erase call }
    | some (.running (.ask question next)) =>
      { pool with
        calls := pool.calls.insert call (.waiting next)
        asked := pool.asked ++ [(call, question)] }
    | some (.waiting _) | none => pool
  | .answer call reply =>
    match pool.calls.lookup call with
    | some (.waiting next) =>
      { pool with
        calls := pool.calls.insert call (.running (next reply))
        answered := pool.answered ++ [(call, reply)] }
    | some (.running _) | none => pool
  | .crash call => { pool with calls := pool.calls.erase call }

/-- The pool after a run. -/
def run (store : σ) (moves : List (Move A ι)) : Pool σ O Q A ε α :=
  moves.foldl system.step (.idle store)

variable {system}

theorem run_append (store : σ) (earlier later : List (Move A ι)) :
    system.run store (earlier ++ later) = later.foldl system.step (system.run store earlier) :=
  List.foldl_append

theorem run_concat (store : σ) (moves : List (Move A ι)) (move : Move A ι) :
    system.run store (moves ++ [move]) = system.step (system.run store moves) move := by
  simp [run]

/-- What a move does to the calls when it leaves the store and the questions alone: some
end, one may enter and one may receive its answer. -/
inductive Moved (system : System σ O Q A ε α ι) (pool : Pool σ O Q A ε α) (call : Nat) :
    Activity σ O Q A ε α → Prop where
  | kept {activity} : pool.calls.lookup call = some activity → Moved system pool call activity
  | entered (request : ι) : call = pool.entered →
      Moved system pool call (.running (system.serve request))
  | answered {next} (reply : A) : pool.calls.lookup call = some (.waiting next) →
      Moved system pool call (.running (next reply))

/-- Exactly one of the calls is replaced. -/
theorem lookup_insert_cases {calls : Table Nat (Activity σ O Q A ε α)} {call other : Nat}
    {activity found : Activity σ O Q A ε α}
    (stored : (calls.insert call activity).lookup other = some found) :
    (other = call ∧ found = activity) ∨ (other ≠ call ∧ calls.lookup other = some found) := by
  by_cases same : other = call
  · subst same
    rw [AList.lookup_insert] at stored
    exact .inl ⟨rfl, (Option.some.inj stored).symm⟩
  · rw [AList.lookup_insert_ne same] at stored
    exact .inr ⟨same, stored⟩

theorem lookup_of_erase {calls : Table Nat (Activity σ O Q A ε α)} {call other : Nat}
    {found : Activity σ O Q A ε α} (stored : (calls.erase call).lookup other = some found) :
    calls.lookup other = some found := by
  have different : other ≠ call := by
    rintro rfl
    simp at stored
  rwa [AList.lookup_erase_ne different] at stored

variable (system) in
/-- What a move does: it leaves the store and the questions alone, or runs one
transaction, or puts one question. -/
theorem step_cases (pool : Pool σ O Q A ε α) (move : Move A ι) :
    ((system.step pool move).store = pool.store ∧ (system.step pool move).asked = pool.asked ∧
      ∀ call activity, (system.step pool move).calls.lookup call = some activity →
        Moved system pool call activity) ∨
    (∃ call operation next after, move = .advance call ∧
      pool.calls.lookup call = some (.running (.transact operation next)) ∧
      system.apply operation pool.store = .ok after ∧
      system.step pool move = { pool with
        store := after
        calls := pool.calls.insert call (.running (next pool.store)) }) ∨
    (∃ call question next, move = .advance call ∧
      pool.calls.lookup call = some (.running (.ask question next)) ∧
      system.step pool move = { pool with
        calls := pool.calls.insert call (.waiting next)
        asked := pool.asked ++ [(call, question)] }) := by
  have erased : ∀ call other activity, (pool.calls.erase call).lookup other = some activity →
      Moved system pool other activity := by
    intro call other activity stored
    exact .kept (lookup_of_erase stored)
  have same : ∀ call activity, pool.calls.lookup call = some activity →
      Moved system pool call activity := by
    intro call activity stored
    exact .kept stored
  cases move with
  | enter request =>
    refine .inl ⟨rfl, rfl, ?_⟩
    intro call activity stored
    obtain ⟨rfl, rfl⟩ | ⟨_, before⟩ := lookup_insert_cases stored
    · exact .entered request rfl
    · exact .kept before
  | crash call => exact .inl ⟨rfl, rfl, erased call⟩
  | answer call reply =>
    cases found : pool.calls.lookup call with
    | none => exact .inl (by simpa [step, found] using same)
    | some activity =>
      cases activity with
      | running procedure => exact .inl (by simpa [step, found] using same)
      | waiting next =>
        refine .inl ⟨by simp [step, found], by simp [step, found], ?_⟩
        intro other activity stored
        simp only [step, found] at stored
        obtain ⟨rfl, rfl⟩ | ⟨_, before⟩ := lookup_insert_cases stored
        · exact .answered reply found
        · exact .kept before
  | advance call =>
    cases found : pool.calls.lookup call with
    | none => exact .inl (by simpa [step, found] using same)
    | some activity =>
      cases activity with
      | waiting next => exact .inl (by simpa [step, found] using same)
      | running procedure =>
        cases procedure with
        | done result => exact .inl (by simpa [step, found] using erased call)
        | ask question next =>
          exact .inr (.inr ⟨call, question, next, rfl, found, by simp [step, found]⟩)
        | transact operation next =>
          cases applied : system.apply operation pool.store with
          | error raised => exact .inl (by simpa [step, found, applied] using erased call)
          | ok after =>
            exact .inr (.inl ⟨call, operation, next, after, rfl, found, applied,
              by simp [step, found, applied]⟩)

theorem step_numbered {pool : Pool σ O Q A ε α} (numbered : pool.Numbered) (move : Move A ι) :
    (system.step pool move).Numbered := by
  have replaced : ∀ {call activity} next, pool.calls.lookup call = some activity →
      ∀ other found, (pool.calls.insert call next).lookup other = some found →
        other < pool.entered := by
    intro call activity next stored other found later
    obtain ⟨rfl, _⟩ | ⟨_, before⟩ := lookup_insert_cases later
    · exact numbered _ _ stored
    · exact numbered _ _ before
  cases move with
  | enter request =>
    intro call activity stored
    obtain ⟨rfl, _⟩ | ⟨_, before⟩ := lookup_insert_cases stored
    · exact Nat.lt_succ_self _
    · exact (numbered _ _ before).trans (Nat.lt_succ_self _)
  | crash call =>
    intro other activity stored
    exact numbered _ _ (lookup_of_erase stored)
  | answer call reply =>
    unfold step
    dsimp only
    split
    · rename_i next stored
      exact replaced _ stored
    · exact numbered
    · exact numbered
  | advance call =>
    unfold step
    dsimp only
    split
    · intro other activity stored
      exact numbered _ _ (lookup_of_erase stored)
    · rename_i operation next stored
      split
      · exact replaced _ stored
      · intro other activity stored
        exact numbered _ _ (lookup_of_erase stored)
    · rename_i question next stored
      exact replaced _ stored
    · exact numbered
    · exact numbered

variable (system) in
/-- A move that runs no transaction leaves the store alone. -/
theorem step_store (pool : Pool σ O Q A ε α) (move : Move A ι) :
    (system.step pool move).store = pool.store ∨
      ∃ operation, pool.pending move = some operation ∧
        system.apply operation pool.store = .ok (system.step pool move).store := by
  obtain ⟨store, _⟩ | ⟨call, operation, next, after, rfl, found, applied, stepped⟩ |
    ⟨call, question, next, rfl, _, stepped⟩ := step_cases system pool move
  · exact .inl store
  · exact .inr ⟨operation, by simp [Pool.pending, found], by rw [stepped, applied]⟩
  · exact .inl (by rw [stepped])

/-- Every transaction of a run starts from a store in which it is permitted. -/
def Respects (permitted : O → σ → Prop) (pool : Pool σ O Q A ε α) (move : Move A ι) : Prop :=
  ∀ operation ∈ pool.pending move, permitted operation pool.store

instance (permitted : O → σ → Prop) [∀ operation store, Decidable (permitted operation store)]
    (pool : Pool σ O Q A ε α) (move : Move A ι) : Decidable (Respects permitted pool move) :=
  inferInstanceAs (Decidable (∀ operation ∈ pool.pending move, permitted operation pool.store))

/-- What every permitted operation preserves holds of the store throughout a run. -/
theorem store_invariant {permitted : O → σ → Prop} {invariant : σ → Prop}
    (kept : ∀ operation store after, invariant store → permitted operation store →
      system.apply operation store = .ok after → invariant after)
    {pool : Pool σ O Q A ε α} (initially : invariant pool.store) {moves : List (Move A ι)}
    (respected : Admissible system.step (Respects permitted) pool moves) :
    ∀ reached ∈ states system.step pool moves, invariant reached.store := by
  refine invariant_of_steps (fun pool move holds respects => ?_) initially respected
  obtain same | ⟨operation, pending, applied⟩ := step_store system pool move
  · exact same ▸ holds
  · exact kept operation _ _ holds (respects operation pending) applied

/-- What every permitted operation preserves lasts from the start of a run to its end. -/
theorem store_lasts {permitted : O → σ → Prop} {invariant : σ → Prop}
    (kept : ∀ operation store after, invariant store → permitted operation store →
      system.apply operation store = .ok after → invariant after)
    {pool : Pool σ O Q A ε α} (initially : invariant pool.store) {moves : List (Move A ι)}
    (respected : Admissible system.step (Respects permitted) pool moves) :
    invariant (moves.foldl system.step pool).store :=
  store_invariant kept initially respected _ (last_mem_states _ _ _)

section Marks

variable (system) (marked : κ → σ → Prop) (claims : Q → Option κ)

/-- A question that claims a key is put only under a licence for it. A transaction
grants the licence by making the mark, and the question spends it. -/
def Licensed : Procedure σ O Q A ε α → Option κ → Prop
  | .done _, _ => True
  | .transact operation next, licence =>
    ∀ store after, system.apply operation store = .ok after →
      ∃ granted, Licensed (next store) granted ∧
        ∀ key, granted = some key → licence = some key ∨ ¬ marked key store ∧ marked key after
  | .ask question next, licence =>
    (∀ key, claims question = some key → licence = some key) ∧
      ∀ reply, Licensed (next reply) none

/-- The same for a call under way: one that waits has spent its licence. -/
def LicensedCall : Activity σ O Q A ε α → Option κ → Prop
  | .running procedure, licence => system.Licensed marked claims procedure licence
  | .waiting next, licence => licence = none ∧ ∀ reply, system.Licensed marked claims (next reply) none

/-- Licences are held by the calls whose transactions made the marks, each by one
call and before its question; `made` says which call made which mark. -/
structure Licences (pool : Pool σ O Q A ε α) (made : Nat → κ → Prop) (licence : Nat → Option κ) :
    Prop where
  calls : ∀ call activity, pool.calls.lookup call = some activity →
    system.LicensedCall marked claims activity (licence call)
  unused : ∀ call key, call ∈ pool.calls → licence call = some key →
    made call key ∧ marked key pool.store ∧ ∀ put ∈ pool.asked, claims put.2 ≠ some key
  single : ∀ call other key, call ∈ pool.calls → other ∈ pool.calls → licence call = some key →
    licence other = some key → call = other
  put : ∀ put ∈ pool.asked, ∀ key, claims put.2 = some key →
    made put.1 key ∧ marked key pool.store
  once : (pool.asked.filterMap fun put => claims put.2).Nodup

variable {system marked claims}

/-- Every move keeps licences in order, once the mark that it makes is put down to the
call that makes it. -/
theorem Licences.step {made wider : Nat → κ → Prop} {licence : Nat → Option κ}
    {pool : Pool σ O Q A ε α}
    (persist : ∀ operation store after key, system.apply operation store = .ok after →
      marked key store → marked key after)
    (served : ∀ request, system.Licensed marked claims (system.serve request) none)
    (numbered : pool.Numbered)
    (holds : Licences system marked claims pool made licence)
    (move : Move A ι) (remembers : ∀ call key, made call key → wider call key)
    (records : ∀ call key, move = .advance call → ¬ marked key pool.store →
      marked key (system.step pool move).store → wider call key) :
    ∃ later, Licences system marked claims
      (system.step pool move) wider later := by
  have unmarked : ∀ key, ¬ marked key pool.store → ∀ put ∈ pool.asked, claims put.2 ≠ some key := by
    intro key fresh put listed claimed
    exact fresh (holds.put put listed key claimed).2
  obtain ⟨store, asked, calls⟩ | ⟨call, operation, next, after, rfl, found, applied, stepped⟩ |
    ⟨call, question, next, rfl, found, stepped⟩ := step_cases system pool move
  · -- who enters has no licence, and who is answered has spent it
    refine ⟨fun call => if (pool.calls.lookup call).isSome then licence call else none,
      ?_, ?_, ?_, ?_, by rw [asked]; exact holds.once⟩
    · intro call activity stored
      cases calls call activity stored with
      | kept before => simpa [before] using holds.calls call activity before
      | entered request newest =>
        subst newest
        cases taken : pool.calls.lookup pool.entered with
        | none => exact served request
        | some activity => exact absurd (numbered _ _ taken) (lt_irrefl _)
      | answered reply before =>
        obtain ⟨spent, later⟩ := holds.calls call _ before
        simpa [before, spent, LicensedCall] using later reply
    · intro call key _ licensed
      obtain ⟨old, licensed⟩ := Option.ite_none_right_eq_some.mp licensed
      obtain ⟨by', stays, unput⟩ := holds.unused call key (AList.lookup_isSome.mp old) licensed
      exact ⟨remembers _ _ by', by rwa [store], by rwa [asked]⟩
    · intro call other key _ _ first second
      obtain ⟨old, first⟩ := Option.ite_none_right_eq_some.mp first
      obtain ⟨otherOld, second⟩ := Option.ite_none_right_eq_some.mp second
      exact holds.single call other key (AList.lookup_isSome.mp old)
        (AList.lookup_isSome.mp otherOld) first second
    · rw [asked, store]
      intro put listed key claimed
      obtain ⟨by', stays⟩ := holds.put put listed key claimed
      exact ⟨remembers _ _ by', stays⟩
  · have listed : call ∈ pool.calls := AList.lookup_isSome.mp (by simp [found])
    obtain ⟨granted, licensed, grants⟩ := holds.calls call _ found pool.store after applied
    have stays : ∀ key, marked key pool.store → marked key after := fun key =>
      persist operation pool.store after key applied
    rw [stepped] at records ⊢
    refine ⟨Function.update licence call granted, ?_, ?_, ?_, ?_, holds.once⟩
    · intro other activity stored
      obtain ⟨rfl, rfl⟩ | ⟨different, before⟩ := lookup_insert_cases stored
      · simpa [LicensedCall] using licensed
      · simpa [different] using holds.calls other activity before
    · intro other key member licensed
      by_cases same : other = call
      · subst same
        obtain old | ⟨fresh, marks⟩ := grants key (by simpa using licensed)
        · obtain ⟨by', was, unput⟩ := holds.unused other key listed old
          exact ⟨remembers _ _ by', stays key was, unput⟩
        · exact ⟨records other key rfl fresh marks, marks, unmarked key fresh⟩
      · have inside : other ∈ pool.calls := by simpa [same] using member
        obtain ⟨by', was, unput⟩ := holds.unused other key inside (by simpa [same] using licensed)
        exact ⟨remembers _ _ by', stays key was, unput⟩
    · have alone : ∀ other key, other ≠ call → other ∈ pool.calls → licence other = some key →
          granted = some key → False := by
        intro other key different member held given
        obtain old | ⟨fresh, _⟩ := grants key given
        · exact different (holds.single other call key member listed held old)
        · exact fresh (holds.unused other key member held).2.1
      intro first second key firstMember secondMember firstHeld secondHeld
      by_cases one : first = call <;> by_cases two : second = call
      · rw [one, two]
      · subst one
        exact (alone second key two (by simpa [two] using secondMember)
          (by simpa [two] using secondHeld) (by simpa using firstHeld)).elim
      · subst two
        exact (alone first key one (by simpa [one] using firstMember)
          (by simpa [one] using firstHeld) (by simpa using secondHeld)).elim
      · exact holds.single first second key (by simpa [one] using firstMember)
          (by simpa [two] using secondMember) (by simpa [one] using firstHeld)
          (by simpa [two] using secondHeld)
    · intro put member key claimed
      obtain ⟨by', was⟩ := holds.put put member key claimed
      exact ⟨remembers _ _ by', stays key was⟩
  · have listed : call ∈ pool.calls := AList.lookup_isSome.mp (by simp [found])
    obtain ⟨needs, later⟩ := holds.calls call _ found
    rw [stepped]
    refine ⟨Function.update licence call none, ?_, ?_, ?_, ?_, ?_⟩
    · intro other activity stored
      obtain ⟨rfl, rfl⟩ | ⟨different, before⟩ := lookup_insert_cases stored
      · exact ⟨by simp, later⟩
      · simpa [different] using holds.calls other activity before
    · intro other key member licensed
      by_cases same : other = call
      · subst same
        simp at licensed
      · have inside : other ∈ pool.calls := by simpa [same] using member
        rw [Function.update_of_ne same] at licensed
        obtain ⟨by', was, unput⟩ := holds.unused other key inside licensed
        refine ⟨remembers _ _ by', was, ?_⟩
        intro put member claimed
        rcases List.mem_append.mp member with old | new
        · exact unput put old claimed
        · obtain rfl := List.mem_singleton.mp new
          exact same (holds.single other call key inside listed licensed (needs key claimed))
    · intro first second key firstMember secondMember firstHeld secondHeld
      have one : first ≠ call := by
        rintro rfl
        simp at firstHeld
      have two : second ≠ call := by
        rintro rfl
        simp at secondHeld
      exact holds.single first second key (by simpa [one] using firstMember)
        (by simpa [two] using secondMember) (by simpa [one] using firstHeld)
        (by simpa [two] using secondHeld)
    · intro put member key claimed
      rcases List.mem_append.mp member with old | new
      · obtain ⟨by', was⟩ := holds.put put old key claimed
        exact ⟨remembers _ _ by', was⟩
      · obtain rfl := List.mem_singleton.mp new
        obtain ⟨by', was, _⟩ := holds.unused call key listed (needs key claimed)
        exact ⟨remembers _ _ by', was⟩
    · rw [List.filterMap_append]
      refine List.Nodup.append holds.once ?_ ?_
      · cases claimed : claims question <;> simp [claimed]
      · intro key earlier new
        have claimed : claims question = some key := by simpa using new
        obtain ⟨put, member, same⟩ := List.mem_filterMap.mp earlier
        exact (holds.unused call key listed (needs key claimed)).2.2 put member same

variable (system marked) in
/-- The call whose transaction made the mark in a run. -/
def MarkedBy (store : σ) (moves : List (Move A ι)) (call : Nat) (key : κ) : Prop :=
  ∃ before after, moves = before ++ .advance call :: after ∧
    ¬ marked key (system.run store before).store ∧
    marked key (system.run store (before ++ [.advance call])).store

theorem run_numbered (store : σ) (moves : List (Move A ι)) : (system.run store moves).Numbered := by
  induction moves using List.reverseRecOn with
  | nil => simp [run, Pool.idle, Pool.Numbered]
  | append_singleton moves move ih =>
    rw [run_concat]
    exact step_numbered ih move

/-- Licences are in order after every run. -/
theorem run_licences
    (persist : ∀ operation store after key, system.apply operation store = .ok after →
      marked key store → marked key after)
    (served : ∀ request, system.Licensed marked claims (system.serve request) none)
    (store : σ) (moves : List (Move A ι)) :
    ∃ licence, Licences system marked claims
      (system.run store moves) (MarkedBy system marked store moves) licence := by
  induction moves using List.reverseRecOn with
  | nil =>
    refine ⟨fun _ => none, ?_, ?_, ?_, ?_, ?_⟩ <;> simp [run, Pool.idle]
  | append_singleton moves move ih =>
    obtain ⟨licence, holds⟩ := ih
    rw [run_concat]
    refine holds.step persist served (run_numbered store moves) move ?_ ?_
    · rintro call key ⟨before, after, rfl, fresh, marks⟩
      exact ⟨before, after ++ [move], by simp, fresh, marks⟩
    · rintro call key rfl fresh marks
      exact ⟨moves, [], rfl, fresh, by rwa [run_concat]⟩

/-- A mark stays for the rest of a run. -/
theorem marked_lasts
    (persist : ∀ operation store after key, system.apply operation store = .ok after →
      marked key store → marked key after)
    {store : σ} {earlier later : List (Move A ι)} {key : κ}
    (marks : marked key (system.run store earlier).store) :
    marked key (system.run store (earlier ++ later)).store := by
  rw [run_append]
  refine foldl_invariant (fun pool : Pool σ O Q A ε α => marked key pool.store) ?_ marks
  intro move _ pool stays
  obtain same | ⟨operation, _, applied⟩ := step_store system pool move
  · exact same ▸ stays
  · exact persist operation _ _ key applied stays

/-- Who made a mark that stands made it before. -/
theorem MarkedBy.within
    (persist : ∀ operation store after key, system.apply operation store = .ok after →
      marked key store → marked key after)
    {store : σ} {earlier later : List (Move A ι)} {call : Nat} {key : κ}
    (marks : marked key (system.run store earlier).store)
    (made : MarkedBy system marked store (earlier ++ later) call key) :
    MarkedBy system marked store earlier call key := by
  obtain ⟨before, after, split, fresh, marking⟩ := made
  obtain ⟨middle, rfl, _⟩ | ⟨rest, rfl, continued⟩ := List.append_eq_append_iff.mp split
  · exact (fresh (marked_lasts persist marks)).elim
  · cases rest with
    | nil => exact (fresh (by simpa using marks)).elim
    | cons move rest =>
      obtain ⟨rfl, _⟩ := List.cons.inj continued
      exact ⟨before, rest, rfl, fresh, marking⟩

/-- A question that needs a mark is put at most once for each mark. -/
theorem asked_once
    (persist : ∀ operation store after key, system.apply operation store = .ok after →
      marked key store → marked key after)
    (served : ∀ request, system.Licensed marked claims (system.serve request) none)
    (store : σ) (moves : List (Move A ι)) :
    ((system.run store moves).asked.filterMap fun put => claims put.2).Nodup := by
  obtain ⟨licence, holds⟩ := run_licences persist served store moves
  exact holds.once

/-- A question that needs a mark is put by the call that made the mark. -/
theorem asked_by_marker
    (persist : ∀ operation store after key, system.apply operation store = .ok after →
      marked key store → marked key after)
    (served : ∀ request, system.Licensed marked claims (system.serve request) none)
    (store : σ) (moves : List (Move A ι)) :
    ∀ put ∈ (system.run store moves).asked, ∀ key, claims put.2 = some key →
      MarkedBy system marked store moves put.1 key := by
  obtain ⟨licence, holds⟩ := run_licences persist served store moves
  intro put listed key claimed
  exact (holds.put put listed key claimed).1

end Marks

section OneAtATime

/-- A call enters only when no other is under way. -/
def Alone (pool : Pool σ O Q A ε α) : Move A ι → Prop
  | .enter _ => pool.calls.keys = []
  | .advance _ | .answer _ _ | .crash _ => True

instance (pool : Pool σ O Q A ε α) : (move : Move A ι) → Decidable (Alone pool move)
  | .enter _ => inferInstanceAs (Decidable (pool.calls.keys = []))
  | .advance _ | .answer _ _ | .crash _ => isTrue trivial

variable (system) (invariant : Seen σ Q A → Prop) (permits : O → Seen σ Q A → Prop)

/-- Undisturbed, a procedure keeps the invariant at every step, wherever it is lost,
and runs permitted transactions only. -/
def Follows : Procedure σ O Q A ε α → Seen σ Q A → Prop
  | .done _, _ => True
  | .transact operation next, seen =>
    permits operation seen ∧ ∀ after, system.apply operation seen.store = .ok after →
      invariant { seen with store := after } ∧
        Follows (next seen.store) { seen with store := after }
  | .ask question next, seen =>
    invariant { seen with asked := seen.asked ++ [question] } ∧ ∀ reply,
      invariant { seen with
        asked := seen.asked ++ [question], answered := seen.answered ++ [reply] } ∧
      Follows (next reply) { seen with
        asked := seen.asked ++ [question], answered := seen.answered ++ [reply] }

def FollowsCall : Activity σ O Q A ε α → Seen σ Q A → Prop
  | .running procedure, seen => system.Follows invariant permits procedure seen
  | .waiting next, seen => ∀ reply,
    invariant { seen with answered := seen.answered ++ [reply] } ∧
      system.Follows invariant permits (next reply)
        { seen with answered := seen.answered ++ [reply] }

/-- At most one call is under way, and it follows its course. -/
structure Sequential (pool : Pool σ O Q A ε α) : Prop where
  holds : invariant pool.seen
  single : ∀ call other, call ∈ pool.calls → other ∈ pool.calls → call = other
  course : ∀ call activity, pool.calls.lookup call = some activity →
    system.FollowsCall invariant permits activity pool.seen

variable {system invariant permits}

/-- The single call takes a step. -/
theorem Sequential.replace {pool : Pool σ O Q A ε α} {call : Nat}
    {activity : Activity σ O Q A ε α}
    (sequential : system.Sequential invariant permits pool)
    (found : pool.calls.lookup call = some activity) {next : Pool σ O Q A ε α}
    {replacement : Activity σ O Q A ε α} (calls : next.calls = pool.calls.insert call replacement)
    (holds : invariant next.seen)
    (course : system.FollowsCall invariant permits replacement next.seen) :
    system.Sequential invariant permits next := by
  have listed : call ∈ pool.calls := AList.lookup_isSome.mp (by simp [found])
  have only : ∀ other, other ∈ next.calls → other = call := by
    intro other member
    rw [calls, AList.mem_insert] at member
    rcases member with same | before
    · exact same
    · exact sequential.single other call before listed
  refine ⟨holds, fun first second inFirst inSecond => (only first inFirst).trans
    (only second inSecond).symm, ?_⟩
  intro other activity stored
  obtain rfl := only other (AList.lookup_isSome.mp (by simp [stored]))
  rw [calls, AList.lookup_insert] at stored
  exact Option.some.inj stored ▸ course

/-- The single call ends or is lost. -/
theorem Sequential.drop {pool : Pool σ O Q A ε α}
    (sequential : system.Sequential invariant permits pool) (call : Nat) :
    system.Sequential invariant permits { pool with calls := pool.calls.erase call } := by
  have inside : ∀ other, other ∈ pool.calls.erase call → other ∈ pool.calls := fun other member =>
    (AList.mem_erase.mp member).2
  refine ⟨sequential.holds, fun first second inFirst inSecond =>
    sequential.single first second (inside first inFirst) (inside second inSecond), ?_⟩
  intro other activity stored
  exact sequential.course other activity (lookup_of_erase stored)

theorem Sequential.step
    (served : ∀ request seen, invariant seen →
      system.Follows invariant permits (system.serve request) seen)
    {pool : Pool σ O Q A ε α} (sequential : system.Sequential invariant permits pool)
    (move : Move A ι) (alone : Alone pool move) :
    system.Sequential invariant permits (system.step pool move) := by
  cases move with
  | crash call => exact sequential.drop call
  | enter request =>
    have empty : ∀ call, call ∉ pool.calls := by
      intro call member
      have listed : call ∈ pool.calls.keys := AList.mem_keys.mp member
      rw [show pool.calls.keys = [] from alone] at listed
      cases listed
    have only : ∀ other, other ∈ (system.step pool (.enter request)).calls →
        other = pool.entered := by
      intro other member
      rcases (AList.mem_insert _).mp member with same | before
      · exact same
      · exact (empty other before).elim
    refine ⟨sequential.holds, fun first second inFirst inSecond => (only first inFirst).trans
      (only second inSecond).symm, ?_⟩
    intro other activity stored
    obtain ⟨_, rfl⟩ | ⟨_, before⟩ := lookup_insert_cases stored
    · exact served request pool.seen sequential.holds
    · exact (empty other (AList.lookup_isSome.mp (by simp [before]))).elim
  | answer call reply =>
    cases found : pool.calls.lookup call with
    | none => simpa [System.step, found] using sequential
    | some activity =>
      cases activity with
      | running procedure => simpa [System.step, found] using sequential
      | waiting next =>
        obtain ⟨holds, follows⟩ := sequential.course call _ found reply
        refine sequential.replace found (by simp [System.step, found]; rfl) ?_ ?_
        · simpa [System.step, found, Pool.seen] using holds
        · simpa [System.step, found, Pool.seen, FollowsCall] using follows
  | advance call =>
    cases found : pool.calls.lookup call with
    | none => simpa [System.step, found] using sequential
    | some activity =>
      cases activity with
      | waiting next => simpa [System.step, found] using sequential
      | running procedure =>
        cases procedure with
        | done result => simpa [System.step, found] using sequential.drop call
        | ask question next =>
          obtain ⟨holds, follows⟩ := sequential.course call _ found
          refine sequential.replace found (by simp [System.step, found]; rfl) ?_ ?_
          · simpa [System.step, found, Pool.seen] using holds
          · simpa [System.step, found, Pool.seen, FollowsCall] using follows
        | transact operation next =>
          obtain ⟨_, follows⟩ := sequential.course call _ found
          cases applied : system.apply operation pool.store with
          | error raised => simpa [System.step, found, applied] using sequential.drop call
          | ok after =>
            obtain ⟨holds, later⟩ := follows after applied
            refine sequential.replace found (by simp [System.step, found, applied]; rfl) ?_ ?_
            · simpa [System.step, found, applied, Pool.seen] using holds
            · simpa [System.step, found, applied, Pool.seen, FollowsCall] using later

/-- When calls come one at a time, the invariant holds throughout. -/
theorem sequential_states
    (served : ∀ request seen, invariant seen →
      system.Follows invariant permits (system.serve request) seen)
    {store : σ} (initially : invariant ⟨store, [], []⟩) {moves : List (Move A ι)}
    (alone : Admissible system.step Alone (.idle store) moves) :
    ∀ reached ∈ states system.step (.idle store) moves,
      system.Sequential invariant permits reached := by
  refine invariant_of_steps (fun pool move sequential => sequential.step served move) ?_ alone
  refine ⟨initially, ?_, ?_⟩ <;> simp [Pool.idle]

/-- A transaction that a single call is about to run is permitted. -/
theorem Sequential.permitted {pool : Pool σ O Q A ε α}
    (sequential : system.Sequential invariant permits pool) {move : Move A ι} {operation : O}
    (pending : pool.pending move = some operation) : permits operation pool.seen := by
  unfold Pool.pending at pending
  split at pending
  · rename_i call
    split at pending
    · rename_i found
      cases pending
      exact (sequential.course call _ found).1
    · cases pending
  · cases pending

end OneAtATime

end System

end TradingEngine.Procedures
