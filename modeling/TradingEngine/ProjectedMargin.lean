import TradingEngine.DayTradePreview
import TradingEngine.SettlementSafety

/-!
# Margin before and after a fill

A prospective fill is checked against margin by moving cash and one marked quantity, apart
from the ledger. The result is the margin of the book that the ledger makes of the fill when
the instrument is marked at the fill's price: what margin reads of the holdings are sums over
the positions, and both sides change the same summand of them.
-/

namespace TradingEngine.Accounts

open KeyedTables OrderTypes Nyse Ledger Costs Fills Runs

variable {zone : Zone}

/-- A sum over the holdings is a total over the positions, since a row of no quantity adds
nothing. -/
theorem held_sum (book : Book) (value : Ticker → ℚ → ℚ) (nothing : ∀ ticker, value ticker 0 = 0) :
    (book.held.map fun row => value row.1 row.2).sum =
      total (fun ticker row => value ticker row.qty) book.positions := by
  unfold Book.held Book.state total
  rw [List.map_map, List.map_map]
  rw [((List.perm_insertionSort _ _).map _).sum_eq]
  generalize book.positions.entries = rows
  induction rows with
  | nil => rfl
  | cons row rest ih =>
    by_cases held : row.2.qty = 0
    · have spared : value row.1 row.2.qty = 0 := by rw [held, nothing]
      rw [List.filter_cons_of_neg (by simp [held]), ih, List.map_cons,
        List.sum_cons]
      exact (add_eq_right.mpr spared).symm
    · rw [List.filter_cons_of_pos (by simp [held]), List.map_cons, List.sum_cons,
        ih, List.map_cons, List.sum_cons]
      rfl

theorem total_erase_eq {κ ρ : Type} [DecidableEq κ] (value : κ → ρ → ℚ) (table : Table κ ρ)
    (key : κ) : total value (table.erase key) =
      total (fun other row => if other = key then 0 else value other row) table := by
  have others : total (fun other row => if other = key then 0 else value other row)
      (table.erase key) = total value (table.erase key) := by
    refine total_congr fun entry listed => if_neg ?_
    rintro rfl
    exact (AList.mem_erase.mp (AList.mem_keys.mpr (List.mem_keys_of_mem listed))).1 rfl
  cases stored : table.lookup key with
  | none =>
    rw [erase_of_missing stored] at others ⊢
    exact others.symm
  | some row => rw [total_erase _ stored, if_pos rfl, zero_add, others]

section Marks

variable (market : Market zone) (account : Account) (day : Int) (asOf availableAt : Option Int)

/-- The price at which an instrument is marked, where it has one. -/
def markedPrice (ticker : Ticker) : ℚ :=
  match mark market account ticker day asOf availableAt with
  | .ok seen => seen.price
  | .error _ => 0

/-- Every holding has a mark. -/
def Observed : Prop :=
  ∀ holding ∈ account.book.held, (mark market account holding.1 day asOf availableAt).isOk = true

/-- A holding at its price. -/
def markHolding (row : Ticker × ℚ) : Marked :=
  (row.1, row.2, markedPrice market account day asOf availableAt row.1)

variable {market account day asOf availableAt}

theorem heldMarks_ok {marks : List Marked}
    (computed : heldMarks market account day asOf availableAt = .ok marks) :
    marks = account.book.held.map (markHolding market account day asOf availableAt) := by
  refine mapM_determined (fun row marked done => ?_) computed
  obtain ⟨seen, observed, rfl⟩ := map_ok.mp done
  unfold markHolding markedPrice
  rw [observed]

/-- The holdings have marks exactly when each one has, and these keep the quantities. -/
theorem heldMarks_ok_iff {marks : List Marked} :
    heldMarks market account day asOf availableAt = .ok marks ↔
      Observed market account day asOf availableAt ∧
        marks = account.book.held.map (markHolding market account day asOf availableAt) := by
  constructor
  · intro computed
    refine ⟨fun row listed => ?_, heldMarks_ok computed⟩
    obtain ⟨marked, -, done⟩ := mapM_value computed row listed
    obtain ⟨seen, observed, -⟩ := map_ok.mp done
    rw [observed]
    rfl
  · rintro ⟨observed, rfl⟩
    obtain ⟨marks, computed, -⟩ := heldMarks_returns observed
    rw [computed, heldMarks_ok computed]

theorem marks_sum {value : ℚ → ℚ → ℚ} (nothing : ∀ price, value 0 price = 0) :
    ((account.book.held.map (markHolding market account day asOf availableAt)).map fun row =>
      value row.2.1 row.2.2).sum =
      total (fun ticker row =>
        value row.qty (markedPrice market account day asOf availableAt ticker))
        account.book.positions := by
  rw [List.map_map]
  exact held_sum account.book
    (fun ticker qty => value qty (markedPrice market account day asOf availableAt ticker))
    fun _ => nothing _

/-- The marks of the other instruments add up to what the other positions do. -/
theorem otherMarks_sum {value : ℚ → ℚ → ℚ} (nothing : ∀ price, value 0 price = 0)
    (ticker : Ticker) :
    (((account.book.held.map (markHolding market account day asOf availableAt)).filter fun row =>
      row.1 ≠ ticker).map fun row => value row.2.1 row.2.2).sum =
      total (fun ticker row =>
        value row.qty (markedPrice market account day asOf availableAt ticker))
        (account.book.positions.erase ticker) := by
  rw [total_erase_eq, ← held_sum account.book (fun other qty => if other = ticker then 0
    else value qty (markedPrice market account day asOf availableAt other))
    (by simp [nothing])]
  generalize account.book.held = rows
  induction rows with
  | nil => rfl
  | cons row rest ih =>
    by_cases same : row.1 = ticker
    · have dropped : (markHolding market account day asOf availableAt row).1 = ticker := same
      rw [List.map_cons, List.filter_cons_of_neg (by simp [dropped]), ih,
        List.map_cons, List.sum_cons, if_pos same, zero_add]
    · have kept : (markHolding market account day asOf availableAt row).1 ≠ ticker := same
      rw [List.map_cons, List.filter_cons_of_pos (by simp [kept]), List.map_cons, List.sum_cons,
        ih, List.map_cons, List.sum_cons, if_neg same]
      rfl

end Marks

/-- The margin of cash and of the summed values of the holdings. -/
def assess (cash longs shorts shareFloor : ℚ) : MarginState :=
  let equity := cash + longs - shorts
  let maintenance := 1 / 4 * longs + max (3 / 10 * shorts) shareFloor
  ⟨equity, longs, shorts, maintenance, equity - (1 / 2 * longs + 1 / 2 * shorts),
    equity - maintenance⟩

def longWorth (qty price : ℚ) : ℚ := if 0 < qty then qty * price else 0
def shortWorth (qty price : ℚ) : ℚ := if qty < 0 then |qty| * price else 0
def floorWorth (qty _price : ℚ) : ℚ := if qty < 0 then |qty| * 5 else 0

theorem requirements_eq (cash : ℚ) (marks : List Marked) :
    requirements cash marks = assess cash
      (marks.map fun row => longWorth row.2.1 row.2.2).sum
      (marks.map fun row => shortWorth row.2.1 row.2.2).sum
      (marks.map fun row => floorWorth row.2.1 row.2.2).sum := rfl

/-- The sign of the holding that an accepted fill of a margin account meets, and the
quantity it trades. -/
theorem fillQty_margin {settings : LedgerSettings} {book : Book} {fill : Fill}
    {fees : Option Fees} {qty : ℚ} (margin : settings.accountType = .margin)
    (quantity : fillQty settings book fill fees = .ok (some qty)) :
    match fill.side with
    | .buy => 0 ≤ (book.position fill.ticker).qty ∧ qty = fill.qty
    | .sell => 0 < (book.position fill.ticker).qty ∧
        qty = min fill.qty (book.position fill.ticker).qty
    | .short => (book.position fill.ticker).qty ≤ 0 ∧ qty = fill.qty
    | .cover => (book.position fill.ticker).qty < 0 ∧
        qty = min fill.qty |(book.position fill.ticker).qty| := by
  have traded : tradedQty settings book.cash (feeTotal fees) (book.position fill.ticker).qty fill =
      .ok (some qty) := by
    unfold fillQty at quantity
    dsimp only at quantity
    split at quantity
    · cases quantity
    · cases quantity
    · exact quantity
  unfold tradedQty at traded
  cases side : fill.side with
  | buy =>
    simp only [side] at traded
    split at traded
    · cases traded
    · rename_i opposed
      rw [if_neg (by simp [margin])] at traded
      exact ⟨not_lt.mp opposed, (Option.some.inj (Except.ok.inj traded)).symm⟩
  | sell =>
    simp only [side] at traded
    split at traded
    · cases traded
    · rename_i held
      exact ⟨not_le.mp held, (Option.some.inj (Except.ok.inj traded)).symm⟩
  | short =>
    simp only [side] at traded
    split at traded
    · cases traded
    · rename_i opposed
      exact ⟨not_lt.mp opposed, (Option.some.inj (Except.ok.inj traded)).symm⟩
  | cover =>
    simp only [side] at traded
    split at traded
    · cases traded
    · rename_i held
      exact ⟨not_le.mp held, (Option.some.inj (Except.ok.inj traded)).symm⟩

section Fill

variable {market : Market zone} {account : Account} {fill : Fill} {fees : Option Fees}
  {applied : Applied} {day : Int} {asOf availableAt : Option Int}

/-- The projection of an accepted fill has the cash and the quantity of the ledger. -/
theorem project_applied (margin : account.settings.accountType = .margin)
    (stock : fill.multiplier = 1)
    (filled : applyFill account.ledgerSettings account.ledger.times account.book fill fees =
      .ok applied) (accepted : 0 < applied.qty) {marks : List Marked}
    (quantities : markedQty marks fill.ticker = (account.book.position fill.ticker).qty) :
    project (account.book.cash - feeTotal fees) marks ⟨fill.ticker, fill.side, fill.qty, fill.px⟩ =
      .ok (applied.book.cash, (marks.filter fun row => row.1 ≠ fill.ticker) ++
        [(fill.ticker, (applied.book.position fill.ticker).qty, fill.px)]) := by
  rcases applyFill_cases filled with ⟨_, rfl⟩ | ⟨qty, lots, trades, closes, quantity, -, rfl⟩
  · exact absurd accepted (lt_irrefl 0)
  · have traded := fillQty_margin (show account.ledgerSettings.accountType = .margin from margin)
      quantity
    have cash : (filledBook account.book fill (feeTotal fees) qty lots trades).cash =
        account.book.cash - feeTotal fees - fill.side.sign * (qty * fill.px) := by
      simp only [filledBook, stock]
      ring
    have held : ((filledBook account.book fill (feeTotal fees) qty lots trades).position
        fill.ticker).qty =
        (account.book.position fill.ticker).qty + fill.side.sign * qty := by
      simp [filledBook, Book.position]
    unfold project
    rw [cash, held]
    dsimp only
    rw [quantities]
    cases side : fill.side with
    | buy =>
      simp only [side] at traded
      obtain ⟨long, rfl⟩ := traded
      exact if_neg (not_lt.mpr long)
    | sell =>
      simp only [side] at traded
      obtain ⟨long, rfl⟩ := traded
      rw [max_eq_left long.le]
    | short =>
      simp only [side] at traded
      obtain ⟨short, rfl⟩ := traded
      exact if_neg (not_lt.mpr short)
    | cover =>
      simp only [side] at traded
      obtain ⟨short, rfl⟩ := traded
      rw [min_eq_left short.le]

theorem applied_positions
    (filled : applyFill account.ledgerSettings account.ledger.times account.book fill fees =
      .ok applied) (accepted : 0 < applied.qty) :
    ∃ row, applied.book.positions = account.book.positions.insert fill.ticker row ∧
      row.qty = (applied.book.position fill.ticker).qty := by
  rcases applyFill_cases filled with ⟨_, rfl⟩ | ⟨qty, lots, trades, closes, -, -, rfl⟩
  · exact absurd accepted (lt_irrefl 0)
  · exact ⟨_, rfl, by simp [filledBook, Book.position]⟩

/-- A changed position of a marked instrument leaves what has to be observed. -/
theorem observed_insert {book : Book} {ticker : Ticker} {row : Position}
    (written : book.positions = account.book.positions.insert ticker row)
    (marked : (mark market account ticker day asOf availableAt).isOk = true) :
    Observed market { account with book := book } day asOf availableAt ↔
      Observed market account day asOf availableAt := by
  have others : ∀ {other : Ticker} {qty : ℚ}, other ≠ ticker →
      ((other, qty) ∈ book.held ↔ (other, qty) ∈ account.book.held) := by
    intro other qty different
    rw [mem_held, mem_held, written, AList.lookup_insert_ne different]
  constructor
  · rintro observed ⟨other, qty⟩ listed
    by_cases same : other = ticker
    · exact same ▸ marked
    · exact observed (other, qty) ((others same).mpr listed)
  · rintro observed ⟨other, qty⟩ listed
    by_cases same : other = ticker
    · exact same ▸ marked
    · exact observed (other, qty) ((others same).mp listed)

theorem filledMarks_sum {value : ℚ → ℚ → ℚ} (nothing : ∀ price, value 0 price = 0)
    {book : Book} {ticker : Ticker} {row : Position} {px : ℚ}
    (written : book.positions = account.book.positions.insert ticker row)
    (priced : markedPrice market account day asOf availableAt ticker = px) :
    ((((account.book.held.map (markHolding market account day asOf availableAt)).filter fun row =>
      row.1 ≠ ticker) ++ [(ticker, row.qty, px)]).map fun row => value row.2.1 row.2.2).sum =
    ((book.held.map (markHolding market { account with book := book } day asOf
      availableAt)).map fun row => value row.2.1 row.2.2).sum := by
  have after : ((book.held.map (markHolding market { account with book := book } day asOf
      availableAt)).map fun row => value row.2.1 row.2.2).sum =
      total (fun ticker row =>
        value row.qty (markedPrice market account day asOf availableAt ticker)) book.positions :=
    marks_sum nothing
  rw [after, written, total_insert, List.map_append, List.sum_append, otherMarks_sum nothing,
    priced, add_comm]
  simp

end Fill

/-- Margin projected for a fill is the margin of the book after the fill, when the
instrument's mark is the fill's price: one is computed exactly if the other is, and with it
equity, values, requirements and excesses. The projected cash is the ledger's. -/
theorem marginState_projected {market : Market zone} {account : Account} {fill : Fill}
    {fees : Option Fees} {applied : Applied} {day : Int} {asOf availableAt : Option Int}
    {observed : Mark} (margin : account.settings.accountType = .margin)
    (stock : fill.multiplier = 1)
    (filled : applyFill account.ledgerSettings account.ledger.times account.book fill fees =
      .ok applied) (accepted : 0 < applied.qty)
    (marked : mark market account fill.ticker day asOf availableAt = .ok observed)
    (priced : observed.price = fill.px) :
    (∀ state,
      marginState market account day (some ⟨fill.ticker, fill.side, fill.qty, fill.px⟩)
        (feeTotal fees) asOf availableAt = .ok state ↔
      marginState market { account with book := applied.book } day none 0 asOf availableAt =
        .ok state) ∧
    ∀ marks, heldMarks market account day asOf availableAt = .ok marks →
      (project (account.book.cash - feeTotal fees) marks
        ⟨fill.ticker, fill.side, fill.qty, fill.px⟩).map Prod.fst = .ok applied.book.cash := by
  obtain ⟨row, written, held⟩ := applied_positions filled accepted
  have quantities : ∀ {marks}, heldMarks market account day asOf availableAt = .ok marks →
      markedQty marks fill.ticker = (account.book.position fill.ticker).qty := by
    intro marks computed
    obtain ⟨marks', computed', positions⟩ := heldMarks_returns (heldMarks_ok_iff.mp computed).1
    obtain rfl := Except.ok.inj (computed.symm.trans computed')
    exact positions fill.ticker
  have price : markedPrice market account day asOf availableAt fill.ticker = fill.px := by
    unfold markedPrice
    rw [marked, ← priced]
  have alike : Observed market { account with book := applied.book } day asOf availableAt ↔
      Observed market account day asOf availableAt := observed_insert written (by rw [marked]; rfl)
  have same : requirements applied.book.cash
      (((account.book.held.map (markHolding market account day asOf availableAt)).filter fun row =>
        row.1 ≠ fill.ticker) ++ [(fill.ticker, (applied.book.position fill.ticker).qty, fill.px)]) =
      requirements (applied.book.cash - 0) (applied.book.held.map
        (markHolding market { account with book := applied.book } day asOf availableAt)) := by
    rw [requirements_eq, requirements_eq, sub_zero, ← held,
      filledMarks_sum (by simp [longWorth]) written price,
      filledMarks_sum (by simp [shortWorth]) written price,
      filledMarks_sum (by simp [floorWorth]) written price]
  refine ⟨fun state => ?_, fun marks computed => ?_⟩
  · constructor
    · intro projected
      obtain ⟨marks, computed, projected⟩ := bind_ok.mp projected
      obtain ⟨seen, rfl⟩ := heldMarks_ok_iff.mp computed
      dsimp only at projected
      rw [project_applied margin stock filled accepted (quantities computed)] at projected
      obtain rfl := Except.ok.inj projected
      exact bind_ok.mpr
        ⟨_, heldMarks_ok_iff.mpr ⟨alike.mpr seen, rfl⟩, congrArg Except.ok same.symm⟩
    · intro after
      obtain ⟨marks, computed, after⟩ := bind_ok.mp after
      obtain ⟨seen, rfl⟩ := heldMarks_ok_iff.mp computed
      obtain rfl := Except.ok.inj after
      have before := heldMarks_ok_iff.mpr ⟨alike.mp seen, rfl⟩
      refine bind_ok.mpr ⟨_, before, ?_⟩
      dsimp only
      rw [project_applied margin stock filled accepted (quantities before)]
      exact congrArg Except.ok same
  · rw [project_applied margin stock filled accepted (quantities computed)]
    rfl

/-- Every share trades at sixty dollars. -/
def sixtyMarket : Market daylightTime := steadyMarket 60 (by norm_num)

/-- The margin of the day trader after half of the shares were sold. -/
theorem halfSold_margin : ∃ applied,
    applyFill dayTrader.ledgerSettings dayTrader.ledger.times dayTrader.book halfSold none =
      .ok applied ∧
    marginState sixtyMarket
      { dayTrader with book := applied.book } 739769 none 0 none none =
      .ok ⟨1600, 300, 0, 75, 1450, 1525⟩ := by
  obtain ⟨applied, filled, accepted⟩ := halfSold_applies
  have marked : (mark sixtyMarket dayTrader "XYZ" 739769
      none none).map Mark.price = .ok 60 := by decide +kernel
  obtain ⟨observed, seen, price⟩ := map_ok.mp marked
  have projected : marginState sixtyMarket dayTrader
      739769 (some ⟨"XYZ", .sell, 5, 60⟩) 0 none none = .ok ⟨1600, 300, 0, 75, 1450, 1525⟩ := by
    decide +kernel
  exact ⟨applied, filled, ((marginState_projected rfl rfl filled accepted seen price).1 _).mp
    projected⟩

end TradingEngine.Accounts
