import TradingEngine.LeagueTurns

/-!
# When the league's fills complete

A step over books that are long returns unless some book under the broker's fees has an
executable buy while its sales leave it without any cash: the scale of the buys is then zero,
and the fee table refuses a quantity of zero. Where the step returns, every due order is
filled, rejected or still pending.
-/

namespace TradingEngine.LeagueFills

open KeyedTables OrderTypes Ledger Costs Fills Runs

/-- A collected buy of a book that can be filled. -/
structure Buyable (session : Session) (store : Store) (portfolioId : String)
    (candidate : Candidate) : Prop where
  own : candidate.order.portfolioId = portfolioId
  buy : candidate.order.side = .buy
  positive : 0 < candidate.order.qty
  waited : candidate.order.signalDate < session.day
  unfilled : store.fills.lookup candidate.id = none

section Scales

variable {session : Session} {portfolio : Portfolio} {candidates : List Candidate} {cash : ℚ}

theorem legCost_ok {scale cost : ℚ} {candidate : Candidate} :
    legCost session portfolio scale candidate = .ok cost ↔
      ∃ fees, fillFees session portfolio .buy (candidate.order.qty * scale)
          candidate.terms.fillPx = .ok fees ∧
        cost = candidate.order.qty * scale * candidate.terms.fillPx + fees.totalUsd := by
  unfold legCost
  dsimp only
  cases fillFees session portfolio .buy (candidate.order.qty * scale) candidate.terms.fillPx with
  | error raised => simp
  | ok fees => simp [eq_comm]

theorem legCost_returns_iff {scale : ℚ} {candidate : Candidate} :
    (∃ cost, legCost session portfolio scale candidate = .ok cost) ↔
      effectiveCostProfile portfolio session.day = .baselineV1 ∨
        candidate.order.qty * scale ≠ 0 := by
  rw [← fillFees_returns_iff candidate.terms.priced]
  simp only [legCost_ok]
  constructor
  · rintro ⟨_, fees, charged, _⟩
    exact ⟨fees, charged⟩
  · rintro ⟨fees, charged⟩
    exact ⟨_, fees, charged, rfl⟩

theorem scaledTotal_returns {scale : ℚ}
    (positive : ∀ candidate ∈ candidates, 0 < candidate.order.qty)
    (charged : effectiveCostProfile portfolio session.day = .baselineV1 ∨ scale ≠ 0) :
    ∃ total, scaledTotal session portfolio scale candidates = .ok total := by
  have each (candidate : Candidate) (listed : candidate ∈ candidates) :
      ∃ cost, legCost session portfolio scale candidate = .ok cost :=
    legCost_returns_iff.mpr (charged.imp_right fun nonzero =>
      mul_ne_zero (positive candidate listed).ne' nonzero)
  obtain ⟨costs, computed, _⟩ := mapM_ok each
  exact ⟨costs.sum, by rw [scaledTotal, computed]⟩

theorem scaledTotal_refused (broker : effectiveCostProfile portfolio session.day ≠ .baselineV1)
    (some : candidates ≠ []) (total : ℚ) :
    scaledTotal session portfolio 0 candidates ≠ .ok total := by
  obtain ⟨candidate, rest, rfl⟩ := List.exists_cons_of_ne_nil some
  have refused : ¬ ∃ cost, legCost session portfolio 0 candidate = .ok cost := by
    rw [legCost_returns_iff]
    simp [broker]
  intro computed
  unfold scaledTotal at computed
  rw [List.mapM_cons] at computed
  cases cost : legCost session portfolio 0 candidate with
  | ok value => exact refused ⟨value, cost⟩
  | error raised =>
    rw [cost] at computed
    cases computed

/-- Unscaled legs cost something. -/
theorem scaledTotal_pos {wanted : ℚ} (some : candidates ≠ [])
    (positive : ∀ candidate ∈ candidates, 0 < candidate.order.qty)
    (computed : scaledTotal session portfolio 1 candidates = .ok wanted) : 0 < wanted := by
  unfold scaledTotal at computed
  split at computed
  · cases computed
  · rename_i costs legs
    cases computed
    refine List.sum_pos _ ?_ ?_
    · intro cost listed
      obtain ⟨candidate, inside, priced⟩ := mapM_source legs cost listed
      obtain ⟨fees, charged, rfl⟩ := legCost_ok.mp priced
      have fee : 0 ≤ fees.totalUsd :=
        charge_nonneg (fillFees_charge.mp charged) _ (by simp [Fees.components])
      have worth := mul_pos (positive candidate inside) candidate.terms.priced
      rw [mul_one]
      linarith
    · obtain ⟨candidate, listed⟩ := List.exists_mem_of_ne_nil _ some
      obtain ⟨cost, inside, _⟩ := mapM_value legs candidate listed
      exact List.ne_nil_of_mem inside

theorem refineScale_returns {scale : ℚ} (attempts : Nat)
    (positive : ∀ candidate ∈ candidates, 0 < candidate.order.qty)
    (charged : effectiveCostProfile portfolio session.day = .baselineV1 ∨
      scale ≠ 0 ∧ cash ≠ 0) :
    ∃ refined, refineScale session portfolio candidates cash attempts scale = .ok refined := by
  induction attempts generalizing scale with
  | zero => exact ⟨scale, rfl⟩
  | succ attempts ih =>
    obtain ⟨total, computed⟩ := scaledTotal_returns positive (charged.imp_right And.left)
    rw [refineScale, computed]
    dsimp only
    split
    · exact ⟨scale, rfl⟩
    · rename_i exceeds
      push Not at exceeds
      refine ih (charged.imp_right ?_)
      rintro ⟨scaled, funded⟩
      refine ⟨mul_ne_zero scaled (mul_ne_zero (div_ne_zero funded exceeds.2.ne') ?_), funded⟩
      norm_num

/-- The scale of a book's buys is found unless the broker's book has no cash at all. -/
theorem buyScale_returns_iff (some : candidates ≠ [])
    (positive : ∀ candidate ∈ candidates, 0 < candidate.order.qty) :
    (∃ scale, buyScale session portfolio candidates cash = .ok scale) ↔
      effectiveCostProfile portfolio session.day = .baselineV1 ∨ cash ≠ 0 := by
  obtain ⟨wanted, computed⟩ : ∃ wanted,
      scaledTotal session portfolio 1 candidates = .ok wanted :=
    scaledTotal_returns positive (.inr one_ne_zero)
  have costs := scaledTotal_pos some positive computed
  rw [buyScale, computed]
  dsimp only
  constructor
  · rintro ⟨scale, found⟩
    by_contra broke
    push Not at broke
    obtain ⟨broker, rfl⟩ := broke
    rw [if_pos costs, zero_div, zero_mul, min_eq_right zero_le_one, refineScale] at found
    split at found
    · cases found
    · rename_i total zero
      exact scaledTotal_refused broker some total zero
  · intro charged
    refine refineScale_returns 3 positive (charged.imp_right fun funded => ⟨?_, funded⟩)
    split
    · have share : cash / wanted * (1 - 1 / 10 ^ 12) ≠ 0 :=
        mul_ne_zero (div_ne_zero funded costs.ne') (by norm_num)
      rcases min_choice 1 (cash / wanted * (1 - 1 / 10 ^ 12)) with one | less
      · rw [one]
        exact one_ne_zero
      · rw [less]
        exact share
    · exact one_ne_zero

end Scales

/-- The priced leg that a scaled buy records: none when its own attempt does not fill, or when
it is dust. -/
def legOf (session : Session) (profile : ExecutionProfile) (scale : ℚ) (candidate : Candidate) :
    Option (ℚ × OpenFill) :=
  let qty := candidate.order.qty * scale
  let priced :=
    if scale < 1 then
      match attemptFill session profile candidate.order.ticker .buy qty
          candidate.order.signalDate with
      | .ok (.filled terms) => some terms
      | _ => none
    else some candidate.terms
  priced.bind fun terms => if qty * terms.fillPx < minFillUsd then none else some (qty, terms)

/-- What the turn of one buy does. -/
structure BuyTurn (session : Session) (portfolio : Portfolio) (scale : ℚ) (store next : Store)
    (candidate : Candidate) (book : Book) : Prop where
  touches : Touches candidate.id candidate.order.portfolioId store next
  stored : next.portfolios.lookup candidate.order.portfolioId =
    some { portfolio with book := book }
  long : LongBook book
  dropped : legOf session (profileOf portfolio) scale candidate = none →
    book = portfolio.book ∧ next.fills = store.fills
  recorded : ∀ qty terms, legOf session (profileOf portfolio) scale candidate = some (qty, terms) →
    ∃ before fees applied,
      Recorded session portfolio before candidate.id candidate.order qty terms next fees applied ∧
        before.fills = store.fills ∧ book = applied.book

section Buys

variable {session : Session} {store : Store} {portfolioId : String} {portfolio : Portfolio}
  {candidate : Candidate}

/-- A priced leg is recorded, or it is dust. -/
theorem finishBuy_turn {scale : ℚ} {terms : OpenFill} {before : Store}
    (touches : Touches candidate.id candidate.order.portfolioId before store)
    (found : store.portfolios.lookup portfolioId = some portfolio)
    (trading : Trading portfolio) (buyable : Buyable session store portfolioId candidate)
    (fills : store.fills = before.fills)
    (leg : legOf session (profileOf portfolio) scale candidate =
      if candidate.order.qty * scale * terms.fillPx < minFillUsd then none
      else some (candidate.order.qty * scale, terms)) :
    ∃ next book, finishBuy session store candidate (candidate.order.qty * scale) terms = .ok next ∧
      BuyTurn session portfolio scale before next candidate book := by
  have own := buyable.own
  subst own
  unfold finishBuy
  split
  · rename_i dust
    rw [if_pos dust] at leg
    refine ⟨_, portfolio.book, rfl, touches.trans (Touches.reject _ _ _ _ _), found, trading.long,
      fun _ => ⟨rfl, fills⟩, ?_⟩
    intro qty terms some
    rw [leg] at some
    cases some
  · rename_i worth
    rw [if_neg worth] at leg
    have positive : 0 < candidate.order.qty * scale := by
      have least : (0 : ℚ) < minFillUsd := by norm_num [minFillUsd]
      exact pos_of_mul_pos_left (least.trans_le (not_lt.mp worth)) terms.priced.le
    obtain ⟨next, fees, applied, recorded, bought⟩ : ∃ next fees applied,
        record session store candidate.id candidate.order (candidate.order.qty * scale) terms =
            .ok next ∧
          Recorded session portfolio store candidate.id candidate.order
            (candidate.order.qty * scale) terms next fees applied :=
      record_returns found trading (.inl buyable.buy) positive
        (fun sell => by rw [buyable.buy] at sell; cases sell) buyable.unfilled
    refine ⟨next, applied.book, recorded, touches.trans bought.touches,
      bought.portfolio_lookup found, bought.long, ?_, ?_⟩
    · intro none
      rw [leg] at none
      cases none
    · intro qty terms same
      rw [leg] at same
      cases same
      exact ⟨store, fees, applied, bought, fills, rfl⟩

/-- The turn of a buy returns. -/
theorem fillBuy_turn (found : store.portfolios.lookup portfolioId = some portfolio)
    (trading : Trading portfolio) (buyable : Buyable session store portfolioId candidate)
    (scale : ℚ) :
    ∃ next book, fillBuy session (profileOf portfolio) scale store candidate = .ok next ∧
      BuyTurn session portfolio scale store next candidate book := by
  unfold fillBuy
  dsimp only
  split
  · rename_i scaled
    obtain ⟨result, attempts⟩ := attemptFill_returns session (profileOf portfolio)
      candidate.order.ticker .buy (candidate.order.qty * scale) buyable.waited
    have own := buyable.own
    have touched : Touches candidate.id candidate.order.portfolioId store
        (updateExecution store candidate.id session.day fun row =>
          { execution (profileOf portfolio) (candidate.order.qty * scale) result with
            executionProfile := row.executionProfile }) := Touches.executions _ _ _ _
    rw [attempts]
    cases result with
    | filled terms =>
      refine finishBuy_turn touched found trading ⟨buyable.own, buyable.buy, buyable.positive,
        buyable.waited, buyable.unfilled⟩ rfl ?_
      simp [legOf, scaled, attempts]
    | rejected reason openPx volume =>
      have none : legOf session (profileOf portfolio) scale candidate = none := by
        simp [legOf, scaled, attempts]
      subst own
      exact ⟨_, portfolio.book, rfl, touched.trans (Touches.reject _ _ _ _ _), found,
        trading.long, fun _ => ⟨rfl, rfl⟩, fun _ _ some => by rw [none] at some; cases some⟩
    | pending reason =>
      have none : legOf session (profileOf portfolio) scale candidate = none := by
        simp [legOf, scaled, attempts]
      subst own
      exact ⟨_, portfolio.book, rfl, touched, found, trading.long, fun _ => ⟨rfl, rfl⟩,
        fun _ _ some => by rw [none] at some; cases some⟩
  · rename_i whole
    refine finishBuy_turn (Touches.refl _ _ _) found trading buyable rfl ?_
    simp [legOf, whole]

end Buys

/-- What the buys of one book leave of everything else, and of its orders. -/
structure Bought (before after : Store) (portfolioId : String) (candidates : List Candidate) :
    Prop where
  portfolios : ∀ other, other ≠ portfolioId →
    after.portfolios.lookup other = before.portfolios.lookup other
  fills : ∀ id, (∀ candidate ∈ candidates, candidate.id ≠ id) →
    after.fills.lookup id = before.fills.lookup id
  orders : ∀ id order, before.orders.lookup id = some order →
    ∃ next, after.orders.lookup id = some next ∧
      (next.status = order.status ∨ next.status = .filled ∨ next.status = .rejected)
  keeps : KeepsLong before after
  waits : StillWaits before after

/-- A book whose collected buys can come. -/
structure GroupReady (session : Session) (store : Store) (group : String × List Candidate) :
    Prop where
  portfolio : ∃ portfolio, store.portfolios.lookup group.1 = some portfolio ∧ Trading portfolio
  buyable : ∀ candidate ∈ group.2, Buyable session store group.1 candidate
  distinct : (group.2.map Candidate.id).Nodup
  some : group.2 ≠ []

/-- A book under the broker's fees without any cash. -/
def Broke (session : Session) (store : Store) (portfolioId : String) : Prop :=
  ∃ portfolio, store.portfolios.lookup portfolioId = some portfolio ∧
    effectiveCostProfile portfolio session.day ≠ .baselineV1 ∧ portfolio.book.cash = 0

section Groups

variable {session : Session} {store : Store} {group : String × List Candidate}

theorem BuyTurn.buyable {portfolio : Portfolio} {scale : ℚ} {next : Store}
    {candidate other : Candidate} {book : Book} {portfolioId : String}
    (turn : BuyTurn session portfolio scale store next candidate book)
    (differs : other.id ≠ candidate.id) (buyable : Buyable session store portfolioId other) :
    Buyable session next portfolioId other :=
  ⟨buyable.own, buyable.buy, buyable.positive, buyable.waited, by
    rw [turn.touches.fills _ differs]
    exact buyable.unfilled⟩

/-- At a scale that was found, every buy gets its turn. -/
theorem buys_run {candidates : List Candidate} {portfolioId : String} {portfolio : Portfolio}
    (scale : ℚ) (distinct : (candidates.map Candidate.id).Nodup)
    (found : store.portfolios.lookup portfolioId = some portfolio) (trading : Trading portfolio)
    (buyable : ∀ candidate ∈ candidates, Buyable session store portfolioId candidate) :
    ∃ after, candidates.foldlM (fillBuy session (profileOf portfolio) scale) store = .ok after ∧
      Bought store after portfolioId candidates := by
  induction candidates generalizing store portfolio with
  | nil =>
    exact ⟨store, rfl, fun _ _ => rfl, fun _ _ => rfl, fun _ order found =>
      ⟨order, found, .inl rfl⟩, .refl store, .refl store⟩
  | cons candidate rest ih =>
    rw [List.map_cons, List.nodup_cons] at distinct
    have ready := buyable candidate List.mem_cons_self
    obtain ⟨next, book, stepped, turn⟩ := fillBuy_turn found trading ready scale
    have own := ready.own
    subst own
    have later (other : Candidate) (listed : other ∈ rest) :
        Buyable session next candidate.order.portfolioId other := by
      refine turn.buyable ?_ (buyable other (List.mem_cons_of_mem _ listed))
      intro same
      exact distinct.1 (same ▸ List.mem_map_of_mem listed)
    obtain ⟨after, runs, bought⟩ := ih distinct.2 turn.stored
      ⟨trading.league, turn.long⟩ later
    refine ⟨after, foldlM_cons_ok.mpr ⟨next, stepped, runs⟩, ?_, ?_, ?_,
      (KeepsLong.write found turn.stored turn.long turn.touches.portfolios).trans bought.keeps,
      turn.touches.waits.trans bought.waits⟩
    · intro other differs
      rw [bought.portfolios other differs, turn.touches.portfolios other differs]
    · intro id apart
      rw [bought.fills id fun other listed => apart other (List.mem_cons_of_mem _ listed),
        turn.touches.fills id (apart candidate List.mem_cons_self).symm]
    · intro id order stored
      by_cases same : id = candidate.id
      · subst same
        obtain ⟨middle, written, ended⟩ := turn.touches.status order stored
        obtain ⟨last, final, settled⟩ := bought.orders _ middle written
        refine ⟨last, final, ?_⟩
        rcases settled with kept | settled
        · rwa [kept]
        · exact .inr settled
      · rw [← turn.touches.orders id same] at stored
        exact bought.orders id order stored

theorem fillBuys_returns_iff (ready : GroupReady session store group) :
    (∃ after, fillBuys session store group = .ok after) ↔ ¬ Broke session store group.1 := by
  obtain ⟨portfolio, found, trading⟩ := ready.portfolio
  have scales : (∃ scale, buyScale session portfolio group.2 portfolio.book.cash = .ok scale) ↔
      effectiveCostProfile portfolio session.day = .baselineV1 ∨ portfolio.book.cash ≠ 0 :=
    buyScale_returns_iff ready.some fun candidate listed =>
      (ready.buyable candidate listed).positive
  have solvent : ¬ Broke session store group.1 ↔
      effectiveCostProfile portfolio session.day = .baselineV1 ∨ portfolio.book.cash ≠ 0 := by
    constructor
    · intro funded
      by_contra broke
      push Not at broke
      exact funded ⟨portfolio, found, broke⟩
    · rintro charged ⟨other, stored, broker, none⟩
      rw [found] at stored
      cases stored
      tauto
  rw [solvent, ← scales]
  unfold fillBuys
  rw [found]
  dsimp only
  constructor
  · rintro ⟨after, returned⟩
    split at returned
    · cases returned
    · rename_i scale scaled
      exact ⟨scale, scaled⟩
  · rintro ⟨scale, scaled⟩
    rw [scaled]
    obtain ⟨after, runs, _⟩ := buys_run scale ready.distinct found trading ready.buyable
    exact ⟨after, runs⟩

theorem fillBuys_bought (ready : GroupReady session store group) {after : Store}
    (returned : fillBuys session store group = .ok after) :
    Bought store after group.1 group.2 := by
  obtain ⟨portfolio, found, trading⟩ := ready.portfolio
  unfold fillBuys at returned
  rw [found] at returned
  dsimp only at returned
  split at returned
  · cases returned
  · rename_i scale scaled
    obtain ⟨other, runs, bought⟩ := buys_run scale ready.distinct found trading ready.buyable
    rw [runs] at returned
    cases returned
    exact bought

/-- Groups of different books whose buys are different orders. -/
structure Apart (groups : List (String × List Candidate)) : Prop where
  books : (groups.map Prod.fst).Nodup
  orders : ∀ group ∈ groups, ∀ other ∈ groups, ∀ candidate ∈ group.2, ∀ rival ∈ other.2,
    candidate.id = rival.id → group.1 = other.1

variable {groups : List (String × List Candidate)}

theorem Apart.tail (apart : Apart (group :: groups)) :
    Apart groups :=
  ⟨(List.nodup_cons.mp apart.books).2, fun first listed second inside =>
    apart.orders first (List.mem_cons_of_mem _ listed) second (List.mem_cons_of_mem _ inside)⟩

/-- The buys of one book leave the other books as they were. -/
theorem Bought.others (session : Session) {after : Store}
    (bought : Bought store after group.1 group.2) (apart : Apart (group :: groups))
    {other : String × List Candidate} (listed : other ∈ groups) :
    (GroupReady session store other → GroupReady session after other) ∧
      (Broke session after other.1 ↔ Broke session store other.1) := by
  have differs : other.1 ≠ group.1 := by
    intro same
    exact (List.nodup_cons.mp apart.books).1 (same ▸ List.mem_map_of_mem listed)
  constructor
  · rintro ⟨⟨portfolio, found, trading⟩, buyable, distinct, some⟩
    refine ⟨⟨portfolio, ?_, trading⟩, ?_, distinct, some⟩
    · rw [bought.portfolios _ differs]
      exact found
    · intro candidate inside
      obtain ⟨own, buy, positive, waited, unfilled⟩ := buyable candidate inside
      refine ⟨own, buy, positive, waited, ?_⟩
      rw [bought.fills]
      · exact unfilled
      · intro rival own same
        exact differs (apart.orders group List.mem_cons_self other (List.mem_cons_of_mem _ listed)
          rival own candidate inside same).symm
  · unfold Broke
    rw [bought.portfolios _ differs]

/-- The buys return exactly when no book that has any is without cash under the broker's fees. -/
theorem groups_return_iff (apart : Apart groups)
    (ready : ∀ group ∈ groups, GroupReady session store group) :
    (∃ after, groups.foldlM (fillBuys session) store = .ok after) ↔
      ∀ group ∈ groups, ¬ Broke session store group.1 := by
  induction groups generalizing store with
  | nil => exact ⟨fun _ _ listed => (List.not_mem_nil listed).elim, fun _ => ⟨store, rfl⟩⟩
  | cons group rest ih =>
    have first := ready group List.mem_cons_self
    have later {after : Store} (bought : Bought store after group.1 group.2) :
        (∃ last, rest.foldlM (fillBuys session) after = .ok last) ↔
          ∀ other ∈ rest, ¬ Broke session store other.1 := by
      rw [ih apart.tail fun other listed =>
        (bought.others session apart listed).1 (ready other (List.mem_cons_of_mem _ listed))]
      exact forall₂_congr fun other listed =>
        not_congr (bought.others session apart listed).2
    rw [List.forall_mem_cons, ← fillBuys_returns_iff first]
    constructor
    · rintro ⟨last, returned⟩
      obtain ⟨after, stepped, runs⟩ := foldlM_cons_ok.mp returned
      exact ⟨⟨after, stepped⟩, (later (fillBuys_bought first stepped)).mp ⟨last, runs⟩⟩
    · rintro ⟨⟨after, stepped⟩, solvent⟩
      obtain ⟨last, runs⟩ := (later (fillBuys_bought first stepped)).mpr solvent
      exact ⟨last, foldlM_cons_ok.mpr ⟨after, stepped, runs⟩⟩

/-- Every order that the buys meet is filled, rejected or as it was. -/
theorem groups_settle (apart : Apart groups)
    (ready : ∀ group ∈ groups, GroupReady session store group) {after : Store}
    (returned : groups.foldlM (fillBuys session) store = .ok after) {id : OrderId} {order : Order}
    (stored : store.orders.lookup id = some order) :
    ∃ next, after.orders.lookup id = some next ∧
      (next.status = order.status ∨ next.status = .filled ∨ next.status = .rejected) := by
  induction groups generalizing store order with
  | nil =>
    cases returned
    exact ⟨order, stored, .inl rfl⟩
  | cons group rest ih =>
    obtain ⟨middle, stepped, runs⟩ := foldlM_cons_ok.mp returned
    have bought := fillBuys_bought (ready group List.mem_cons_self) stepped
    obtain ⟨next, written, ended⟩ := bought.orders id order stored
    have later (other : String × List Candidate) (listed : other ∈ rest) :
        GroupReady session middle other :=
      (bought.others session apart listed).1 (ready other (List.mem_cons_of_mem _ listed))
    obtain ⟨last, final, settled⟩ := ih apart.tail later runs written
    refine ⟨last, final, ?_⟩
    rcases settled with kept | settled
    · rwa [kept]
    · exact .inr settled

/-- The buys of every book leave the books long, and nothing filled that waits. -/
theorem groups_keep (apart : Apart groups)
    (ready : ∀ group ∈ groups, GroupReady session store group) {after : Store}
    (returned : groups.foldlM (fillBuys session) store = .ok after) :
    KeepsLong store after ∧ StillWaits store after := by
  induction groups generalizing store with
  | nil =>
    cases returned
    exact ⟨.refl _, .refl _⟩
  | cons group rest ih =>
    obtain ⟨middle, stepped, runs⟩ := foldlM_cons_ok.mp returned
    have bought := fillBuys_bought (ready group List.mem_cons_self) stepped
    obtain ⟨keeps, waits⟩ := ih apart.tail (fun other listed =>
      (bought.others session apart listed).1 (ready other (List.mem_cons_of_mem _ listed))) runs
    exact ⟨bought.keeps.trans keeps, bought.waits.trans waits⟩

end Groups

/-- Books of the league are long, and an order that waits has no fill. Fills keep both. -/
structure Sound (store : Store) : Prop where
  long : ∀ portfolioId portfolio, store.portfolios.lookup portfolioId = some portfolio →
    portfolio.settings.engine = .league → LongBook portfolio.book
  unfilled : ∀ id order, store.orders.lookup id = some order → order.status = .pending →
    store.fills.lookup id = none

section Dues

variable {session : Session} {store : Store} {day : Int}

theorem dueOrders_perm (store : Store) (day : Int) :
    (dueOrders store day).Perm (waiting store day) := by
  have split := List.filter_append_perm
    (fun entry : OrderId × Order => decide (entry.2.side = .sell)) (waiting store day)
  refine ((List.perm_insertionSort _ _).append (List.perm_insertionSort _ _)).trans ?_
  simpa using split

theorem mem_dueOrders {entry : OrderId × Order} :
    entry ∈ dueOrders store day ↔
      store.orders.lookup entry.1 = some entry.2 ∧ entry.2.status = .pending ∧
        entry.2.signalDate < day ∧
        ∃ portfolio, store.portfolios.lookup entry.2.portfolioId = some portfolio ∧
          portfolio.settings.engine = .league := by
  rw [(dueOrders_perm store day).mem_iff, waiting, List.mem_filter]
  simp only [Bool.and_eq_true, decide_eq_true_eq, Option.any_eq_true, and_assoc]
  have listed : entry ∈ store.orders.entries.map (fun row => (row.1, row.2)) ↔
      store.orders.lookup entry.1 = some entry.2 := by
    constructor
    · intro inside
      obtain ⟨row, stored, rfl⟩ := List.mem_map.mp inside
      exact lookup_of_mem stored
    · intro found
      exact List.mem_map.mpr ⟨_, mem_of_lookup found, rfl⟩
  rw [listed]

theorem dueOrders_distinct (store : Store) (day : Int) :
    ((dueOrders store day).map Prod.fst).Nodup := by
  rw [((dueOrders_perm store day).map Prod.fst).nodup_iff, waiting]
  refine List.Nodup.sublist (List.filter_sublist.map Prod.fst) ?_
  rw [List.map_map]
  exact store.orders.nodupKeys

theorem dueOrders_ready (sound : Sound store) {entry : OrderId × Order}
    (due : entry ∈ dueOrders store session.day) : Ready session store entry := by
  obtain ⟨stored, pending, waited, portfolio, found, league⟩ := mem_dueOrders.mp due
  exact ⟨⟨portfolio, found, league, sound.long _ _ found league⟩,
    sound.unfilled _ _ stored pending, waited⟩

theorem mem_collected {found : String × Candidate} :
    found ∈ (dueOrders store session.day).filterMap (collected session store) ↔
      ∃ entry ∈ dueOrders store session.day, ∃ portfolio,
        store.portfolios.lookup entry.2.portfolioId = some portfolio ∧
          executable session portfolio entry = some found.2 ∧
          found.1 = entry.2.portfolioId := by
  simp only [List.mem_filterMap, collected, Option.bind_eq_some_iff, Option.map_eq_some_iff]
  constructor
  · rintro ⟨entry, due, portfolio, stored, candidate, buys, rfl⟩
    exact ⟨entry, due, portfolio, stored, buys, rfl⟩
  · rintro ⟨entry, due, portfolio, stored, buys, same⟩
    exact ⟨entry, due, portfolio, stored, found.2, buys, by rw [← same]⟩

theorem executable_candidate {portfolio : Portfolio} {entry : OrderId × Order}
    {candidate : Candidate} (buys : executable session portfolio entry = some candidate) :
    candidate.id = entry.1 ∧ candidate.order = entry.2 ∧ entry.2.side = .buy ∧
      0 < entry.2.qty := by
  unfold executable at buys
  split at buys
  · rename_i valid
    split at buys
    · cases buys
      exact ⟨rfl, rfl, valid.1, valid.2.1⟩
    · cases buys
  · cases buys

theorem mem_buyGroups {candidates : List (String × Candidate)}
    {group : String × List Candidate} (listed : group ∈ buyGroups candidates) :
    (∀ candidate, candidate ∈ group.2 ↔ (group.1, candidate) ∈ candidates) ∧ group.2 ≠ [] := by
  obtain ⟨portfolioId, inside, rfl⟩ := List.mem_map.mp listed
  have members (candidate : Candidate) :
      candidate ∈ (candidates.filter fun entry => decide (entry.1 = portfolioId)).map Prod.snd ↔
        (portfolioId, candidate) ∈ candidates := by
    simp only [List.mem_map, List.mem_filter, decide_eq_true_eq, Prod.exists]
    constructor
    · rintro ⟨other, found, ⟨collected, rfl⟩, rfl⟩
      exact collected
    · intro collected
      exact ⟨portfolioId, candidate, ⟨collected, rfl⟩, rfl⟩
  refine ⟨members, ?_⟩
  obtain ⟨entry, collected, rfl⟩ := List.mem_map.mp (List.mem_eraseDups.mp inside)
  exact List.ne_nil_of_mem ((members entry.2).mpr collected)

theorem buyGroups_books (candidates : List (String × Candidate)) :
    (buyGroups candidates).map Prod.fst = (candidates.map Prod.fst).eraseDups := by
  rw [buyGroups, List.map_map]
  exact List.map_id _

/-- The collected buys form groups of different books and different orders. -/
theorem collected_apart (session : Session) (store : Store) :
    Apart (buyGroups ((dueOrders store session.day).filterMap (collected session store))) := by
  constructor
  · rw [buyGroups_books]
    exact nodup_eraseDups _
  · intro group listed other inside candidate own rival others same
    obtain ⟨entry, due, portfolio, _, buys, owner⟩ :=
      mem_collected.mp (((mem_buyGroups listed).1 candidate).mp own)
    obtain ⟨second, secondDue, _, _, secondBuys, secondOwner⟩ :=
      mem_collected.mp (((mem_buyGroups inside).1 rival).mp others)
    have firstId := (executable_candidate buys).1
    have secondId := (executable_candidate secondBuys).1
    dsimp only at firstId secondId owner secondOwner
    have stored := (mem_dueOrders.mp due).1
    have secondStored := (mem_dueOrders.mp secondDue).1
    rw [← firstId, same, secondId, secondStored] at stored
    rw [owner, secondOwner, Option.some.inj stored]

theorem collected_distinct (session : Session) (store : Store) :
    ((((dueOrders store session.day).filterMap (collected session store))).map
      fun found => found.2.id).Nodup := by
  have distinct := dueOrders_distinct store session.day
  rw [List.Nodup, List.pairwise_map] at distinct ⊢
  refine List.Pairwise.filterMap (collected session store) ?_ distinct
  intro entry other differs found collects rival rivals same
  have idOf {entry : OrderId × Order} {found : String × Candidate}
      (collects : collected session store entry = some found) : found.2.id = entry.1 := by
    simp only [collected, Option.bind_eq_some_iff, Option.map_eq_some_iff] at collects
    obtain ⟨portfolio, _, candidate, buys, rfl⟩ := collects
    exact (executable_candidate buys).1
  exact differs (by rw [← idOf collects, ← idOf rivals, same])

/-- After the pass every group of collected buys can come. -/
theorem collected_ready (sound : Sound store) {progress : Progress}
    (passed : Passed session ⟨store, []⟩ progress (dueOrders store session.day))
    {group : String × List Candidate} (listed : group ∈ buyGroups progress.candidates) :
    GroupReady session progress.store group := by
  have collects : progress.candidates =
      (dueOrders store session.day).filterMap (collected session store) := passed.candidates
  rw [collects] at listed
  have source (candidate : Candidate) (inside : candidate ∈ group.2) :=
    mem_collected.mp (((mem_buyGroups listed).1 candidate).mp inside)
  refine ⟨?_, ?_, ?_, (mem_buyGroups listed).2⟩
  · obtain ⟨candidate, inside⟩ := List.exists_mem_of_ne_nil _ (mem_buyGroups listed).2
    obtain ⟨entry, due, portfolio, found, _, owner⟩ := source candidate inside
    obtain ⟨owner', found', trading⟩ := (dueOrders_ready sound due).portfolio
    rw [found] at found'
    cases found'
    obtain ⟨book, stored, long, _⟩ := passed.books _ _ found trading
    dsimp only at owner
    rw [owner]
    exact ⟨_, stored, trading.league, long⟩
  · intro candidate inside
    obtain ⟨entry, due, portfolio, found, buys, owner⟩ := source candidate inside
    obtain ⟨id, order, buy, positive⟩ := executable_candidate buys
    have ready := dueOrders_ready sound due
    dsimp only at id order owner
    refine ⟨by rw [order, owner], by rw [order]; exact buy, by rw [order]; exact positive,
      by rw [order]; exact ready.waited, ?_⟩
    rw [passed.fills candidate.id, id]
    · exact ready.unfilled
    · intro other otherDue same sells
      have stored := (mem_dueOrders.mp otherDue).1
      rw [same, id, (mem_dueOrders.mp due).1] at stored
      rw [← Option.some.inj stored, buy] at sells
      cases sells
  · obtain ⟨portfolioId, _, rfl⟩ := List.mem_map.mp listed
    rw [List.map_map]
    exact (collected_distinct session store).sublist (List.filter_sublist.map _)

end Dues

/-- The pass over the due orders of a sound store, and the groups that it leaves. -/
theorem due_pass (session : Session) {store : Store} (sound : Sound store) :
    ∃ progress,
      (dueOrders store session.day).foldlM (attemptOrder session) ⟨store, []⟩ = .ok progress ∧
        Passed session ⟨store, []⟩ progress (dueOrders store session.day) ∧
        Apart (buyGroups progress.candidates) ∧
        (∀ group ∈ buyGroups progress.candidates, GroupReady session progress.store group) ∧
        fillPending session store =
          (buyGroups progress.candidates).foldlM (fillBuys session) progress.store := by
  obtain ⟨progress, passes, passed⟩ : ∃ progress,
      (dueOrders store session.day).foldlM (attemptOrder session) ⟨store, []⟩ = .ok progress ∧
        Passed session ⟨store, []⟩ progress (dueOrders store session.day) :=
    attempts_pass (dueOrders_distinct store session.day) fun entry due =>
      dueOrders_ready sound due
  refine ⟨progress, passes, passed, ?_, fun group listed => collected_ready sound passed listed, ?_⟩
  · rw [passed.candidates]
    exact collected_apart session store
  · rw [fillPending, passes]

/-- A step leaves a sound store sound. -/
theorem fillPending_sound {session : Session} {store after : Store} (sound : Sound store)
    (returned : fillPending session store = .ok after) : Sound after := by
  obtain ⟨progress, _, passed, apart, ready, unfolded⟩ := due_pass session sound
  rw [unfolded] at returned
  obtain ⟨keeps, waits⟩ := groups_keep apart ready returned
  constructor
  · intro portfolioId portfolio found league
    obtain ⟨earlier, owned, settings, long⟩ := passed.keeps.trans keeps portfolioId portfolio found
    exact long (sound.long portfolioId earlier owned (settings ▸ league))
  · intro id next found pending
    obtain ⟨⟨order, stored, waited⟩, same⟩ := passed.waits.trans waits id next found pending
    rw [same]
    exact sound.unfilled id order stored waited

/-- The step returns, and every due order is filled, rejected or still pending. -/
def Completes (session : Session) (store : Store) : Prop :=
  ∃ after, fillPending session store = .ok after ∧
    ∀ entry ∈ dueOrders store session.day, ∃ order, after.orders.lookup entry.1 = some order ∧
      (order.status = .filled ∨ order.status = .rejected ∨ order.status = .pending)

/-- A book's cash when its sales of the session are done. -/
def cashAfterSales (session : Session) (store : Store) (portfolioId : String)
    (portfolio : Portfolio) : ℚ :=
  portfolio.book.cash + netSales session portfolio (heldQty portfolio)
    (ordersOf portfolioId (dueOrders store session.day))

/-- A book under the broker's fees with an executable buy whose sales leave it no cash. -/
def PennilessBuyer (session : Session) (store : Store) (portfolioId : String) : Prop :=
  ∃ portfolio, store.portfolios.lookup portfolioId = some portfolio ∧
    effectiveCostProfile portfolio session.day = .ibkrProTieredV1 ∧
    cashAfterSales session store portfolioId portfolio = 0 ∧
    ∃ entry ∈ dueOrders store session.day, entry.2.portfolioId = portfolioId ∧
      (executable session portfolio entry).isSome

/-- The books without cash when the buys come are the penniless buyers. -/
theorem broke_iff {session : Session} {store : Store} (sound : Sound store) {progress : Progress}
    (passed : Passed session ⟨store, []⟩ progress (dueOrders store session.day)) :
    (∃ group ∈ buyGroups progress.candidates, Broke session progress.store group.1) ↔
      ∃ portfolioId, PennilessBuyer session store portfolioId := by
  have collects : progress.candidates =
      (dueOrders store session.day).filterMap (collected session store) := passed.candidates
  have broker (profile : CostProfile) :
      profile ≠ .baselineV1 ↔ profile = .ibkrProTieredV1 := by
    cases profile
    · simp
    · simp
  constructor
  · rintro ⟨group, listed, portfolio, found, charged, none⟩
    rw [collects] at listed
    obtain ⟨candidate, inside⟩ := List.exists_mem_of_ne_nil _ (mem_buyGroups listed).2
    obtain ⟨entry, due, owner, stored, buys, own⟩ :=
      mem_collected.mp (((mem_buyGroups listed).1 candidate).mp inside)
    obtain ⟨owner', found', trading⟩ := (dueOrders_ready sound due).portfolio
    rw [stored] at found'
    cases found'
    obtain ⟨book, reached, _, cash⟩ := passed.books _ _ stored trading
    dsimp only at own buys
    rw [own, reached] at found
    cases found
    dsimp only at cash none
    exact ⟨entry.2.portfolioId, owner, stored, (broker _).mp charged, cash.symm.trans none, entry,
      due, rfl, by rw [buys]; rfl⟩
  · rintro ⟨portfolioId, portfolio, stored, charged, none, entry, due, own, buys⟩
    obtain ⟨candidate, executes⟩ := Option.isSome_iff_exists.mp buys
    subst own
    obtain ⟨owner', found', trading⟩ := (dueOrders_ready sound due).portfolio
    rw [stored] at found'
    cases found'
    obtain ⟨book, reached, _, cash⟩ := passed.books _ _ stored trading
    have inside : (entry.2.portfolioId, candidate) ∈ progress.candidates := by
      rw [collects]
      exact mem_collected.mpr ⟨entry, due, portfolio, stored, executes, rfl⟩
    have grouped : entry.2.portfolioId ∈ (buyGroups progress.candidates).map Prod.fst := by
      rw [buyGroups_books]
      exact List.mem_eraseDups.mpr (List.mem_map_of_mem inside)
    obtain ⟨group, listed, same⟩ := List.mem_map.mp grouped
    refine ⟨group, listed, ?_⟩
    rw [same]
    exact ⟨_, reached, (broker _).mpr charged, cash.trans none⟩

/-- A step over a sound store returns exactly when there is no penniless buyer. -/
theorem fillPending_returns_iff {session : Session} {store : Store} (sound : Sound store) :
    (∃ after, fillPending session store = .ok after) ↔
      ¬ ∃ portfolioId, PennilessBuyer session store portfolioId := by
  obtain ⟨progress, _, passed, apart, ready, unfolded⟩ := due_pass session sound
  rw [← broke_iff sound passed, unfolded, groups_return_iff apart ready]
  push Not
  rfl

/-- A step that returns leaves every due order filled, rejected or pending. -/
theorem fillPending_settles {session : Session} {store after : Store} (sound : Sound store)
    (returned : fillPending session store = .ok after) {entry : OrderId × Order}
    (due : entry ∈ dueOrders store session.day) :
    ∃ order, after.orders.lookup entry.1 = some order ∧
      (order.status = .filled ∨ order.status = .rejected ∨ order.status = .pending) := by
  obtain ⟨progress, _, passed, apart, ready, unfolded⟩ := due_pass session sound
  rw [unfolded] at returned
  obtain ⟨stored, pending, _⟩ := mem_dueOrders.mp due
  obtain ⟨middle, written, ended⟩ := passed.orders entry.1 entry.2 stored
  obtain ⟨last, final, settled⟩ := groups_settle apart ready returned written
  refine ⟨last, final, ?_⟩
  rw [pending] at ended
  rcases settled with kept | settled
  · rw [kept]
    tauto
  · tauto

/-- Over a sound store the step completes exactly when there is no penniless buyer. -/
theorem fillPending_completes_iff {session : Session} {store : Store} (sound : Sound store) :
    Completes session store ↔
      ¬ ∃ portfolioId, PennilessBuyer session store portfolioId := by
  rw [← fillPending_returns_iff sound]
  constructor
  · rintro ⟨after, returned, _⟩
    exact ⟨after, returned⟩
  · rintro ⟨after, returned⟩
    exact ⟨after, returned, fun entry due => fillPending_settles sound returned due⟩

/-- The nights of a run all return exactly when none of them finds a penniless buyer, and then
no book is ever short and no filled order waits. -/
theorem fillPending_nights {sessions : List Session} {store : Store} (sound : Sound store) :
    (∃ after, sessions.foldlM (flip fillPending) store = .ok after ∧ Sound after) ↔
      AdmissibleM (flip fillPending)
        (fun reached session => ¬ ∃ portfolioId, PennilessBuyer session reached portfolioId)
        store sessions := by
  induction sessions generalizing store with
  | nil => exact ⟨fun _ => trivial, fun _ => ⟨store, rfl, sound⟩⟩
  | cons session rest ih =>
    constructor
    · rintro ⟨after, finished, kept⟩
      obtain ⟨next, returned, further⟩ := foldlM_cons_ok.mp finished
      refine ⟨(fillPending_returns_iff sound).mp ⟨next, returned⟩, fun other reached => ?_⟩
      rw [returned] at reached
      cases reached
      exact (ih (fillPending_sound sound returned)).mp ⟨after, further, kept⟩
    · rintro ⟨funded, later⟩
      obtain ⟨next, returned⟩ := (fillPending_returns_iff sound).mpr funded
      obtain ⟨after, finished, kept⟩ := (ih (fillPending_sound sound returned)).mpr
        (later next (by rw [flip, returned]; rfl))
      exact ⟨after, foldlM_cons_ok.mpr ⟨next, returned, finished⟩, kept⟩

/-- Every ticker opens at one hundred, and nothing else is known of it. -/
def openSession : Session where
  day := 10
  openPx _ := some 100
  openPx_positive _ _ opened := by cases opened; norm_num
  medianDollarVol _ := none
  elapsed _ := 1
  quarantine _ := none
  power := id
  times _ := none

/-- A book of cash under a cost profile. -/
def cashBook (profile : CostProfile) (cash : ℚ) : Portfolio :=
  ⟨⟨.league, .cashLegacy⟩, profile, none, none, .opening cash⟩

def pendingBuy (ticker : Ticker) (qty : ℚ) : Order :=
  ⟨"book", ticker, .buy, qty, 9, .pending, none⟩

/-- Orders of a single book that wait. -/
def waitingStore (profile : CostProfile) (cash : ℚ) (orders : List (OrderId × Order)) : Store :=
  ⟨tableOf [("book", cashBook profile cash)], tableOf orders, ∅, ∅⟩

theorem waitingStore_sound (profile : CostProfile) (cash : ℚ) (orders : List (OrderId × Order)) :
    Sound (waitingStore profile cash orders) := by
  constructor
  · intro portfolioId portfolio found _
    have own : portfolio = cashBook profile cash := by
      have listed : portfolioId = "book" ∧ portfolio = cashBook profile cash := by
        simpa [waitingStore, tableOf] using mem_of_lookup found
      exact listed.2
    subst own
    refine ⟨?_, opening_rooted _ cash, ?_⟩
    · intro ticker
      simp [cashBook, Book.position, Book.opening]
    · intro ticker key lot stored
      simp [cashBook, Book.opening] at stored
  · exact fun _ _ _ _ => rfl

/-- Where the broker charges, the step over a book with cash returns. -/
theorem funded_completes :
    Completes openSession (waitingStore .ibkrProTieredV1 500 [(1, pendingBuy "AAPL" 10)]) ↔
      ¬ ∃ portfolioId, PennilessBuyer openSession
        (waitingStore .ibkrProTieredV1 500 [(1, pendingBuy "AAPL" 10)]) portfolioId :=
  fillPending_completes_iff (waitingStore_sound ..)

theorem funded_nights :
    (∃ after, [openSession].foldlM (flip fillPending)
      (waitingStore .ibkrProTieredV1 500 [(1, pendingBuy "AAPL" 10)]) = .ok after ∧
        Sound after) ↔
      AdmissibleM (flip fillPending)
        (fun reached session => ¬ ∃ portfolioId, PennilessBuyer session reached portfolioId)
        (waitingStore .ibkrProTieredV1 500 [(1, pendingBuy "AAPL" 10)]) [openSession] :=
  fillPending_nights (waitingStore_sound ..)

/-- With no cash the same order ends the whole step. -/
theorem penniless_raises :
    Sound (waitingStore .ibkrProTieredV1 0 [(1, pendingBuy "AAPL" 10)]) ∧
      ¬ Completes openSession (waitingStore .ibkrProTieredV1 0 [(1, pendingBuy "AAPL" 10)]) := by
  refine ⟨waitingStore_sound .., ?_⟩
  rintro ⟨after, returned, _⟩
  have raised : (fillPending openSession
      (waitingStore .ibkrProTieredV1 0 [(1, pendingBuy "AAPL" 10)])).isOk = false := by
    decide +kernel
  rw [returned] at raised
  cases raised

end TradingEngine.LeagueFills
