import TradingEngine.FoldWrites

/-!
# The ledger over whole runs

Calls add rows to the ledger of an account and rewrite none: fills, dividends, cash events,
settlements and recorded splits stay as they were written, whatever is folded again.
-/

namespace TradingEngine.Accounts

open KeyedTables Nyse Ledger Runs

variable {zone : Zone}

/-- Rows were put in front of the tables of a ledger. -/
structure LedgerKept (before after : LedgerTables) : Prop where
  initialCash : after.initialCash = before.initialCash
  splits : Grown (fun _ _ => True) before.splits after.splits
  settlements : Grown (fun _ _ => True) before.settlements after.settlements
  dividends : Grown (fun _ _ => True) before.dividends after.dividends
  cashEvents : Grown (fun _ _ => True) before.cashEvents after.cashEvents
  fills : Grown (fun _ _ => True) before.fills after.fills

namespace LedgerKept

variable {before after later : LedgerTables} {world : World zone} {account next : Account}

theorem refl (ledger : LedgerTables) : LedgerKept ledger ledger :=
  ⟨rfl, .refl _, .refl _, .refl _, .refl _, .refl _⟩

theorem trans (first : LedgerKept before after) (second : LedgerKept after later) :
    LedgerKept before later :=
  ⟨second.initialCash.trans first.initialCash, first.splits.trans second.splits,
    first.settlements.trans second.settlements, first.dividends.trans second.dividends,
    first.cashEvents.trans second.cashEvents, first.fills.trans second.fills⟩

theorem of_appended {since : Int} (appended : Appended since before after) :
    LedgerKept before after := by
  refine ⟨appended.initialCash, ?_, ?_, appended.dividends.mono fun _ _ _ => trivial,
    appended.cashEvents.mono fun _ _ _ => trivial, appended.fills.mono fun _ _ _ => trivial⟩
  · rw [appended.splits]
    exact .refl _
  · rw [appended.settlements]
    exact .refl _

theorem of_recordSettlement {terms : Terms}
    (recorded : recordSettlement world terms account = .ok next) :
    LedgerKept account.ledger next.ledger := by
  obtain ⟨missing, rfl⟩ := recordSettlement_ok recorded
  exact { refl account.ledger with settlements := .insert missing trivial }

theorem of_closeOutDelisted {day : Int} (closed : closeOutDelisted world day account = .ok next) :
    LedgerKept account.ledger next.ledger := by
  refine foldlM_invariant (fun state => LedgerKept account.ledger state.ledger) ?_ (.refl _) closed
  intro terms _ state after kept done
  unfold closeOut at done
  split at done
  · obtain ⟨recorded, booked, done⟩ := bind_ok.mp done
    cases done
    have swept : (cancelSettled world terms (pendingOf state terms.ticker) recorded).ledger =
        recorded.ledger := congrArg Prod.snd (cancelSettled_supervised _ _ _ _).books
    exact kept.trans (swept ▸ of_recordSettlement booked)
  · cases done
    exact kept

/-- The splits that are captured are new rows. -/
theorem of_captureSplits (world : World zone) (account : Account) (through : Int) :
    LedgerKept account.ledger (captureSplits world account through).ledger := by
  refine { refl account.ledger with splits := ?_ }
  refine foldl_invariant (Grown (fun _ _ => True) account.ledger.splits) ?_ (.refl _)
  intro action _ recorded grown
  split
  · split
    · rename_i missing
      exact grown.trans (.insert missing.2.2.2 trivial)
    · exact grown
  · exact grown

theorem of_foldLoop {stop : Int} (completed : foldLoop world account stop = .ok next) :
    LedgerKept account.ledger next.ledger := by
  obtain ⟨⟨opened, plan⟩, done, _⟩ := bind_ok.mp completed
  have appended := of_appended (foldLoop_appended done completed)
  obtain ⟨_, _, _, _, rfl, _⟩ := openFold_ok done
  exact (of_captureSplits world account plan.stop).trans appended

/-- A call keeps every row of the ledger. -/
theorem of_step (account : Account) (operation : Operation zone) :
    LedgerKept account.ledger (step account operation).ledger := by
  rcases step_folds account operation with same | ⟨world, stop, mutation, folded, call, done, same, -⟩
  · have ledger : (step account operation).ledger = account.ledger := congrArg Prod.snd same
    rw [ledger]
    exact .refl _
  · obtain ⟨_, _, done⟩ := bind_ok.mp done
    obtain ⟨changed, mutated, done⟩ := bind_ok.mp done
    obtain ⟨looped, loop, finished⟩ := bind_ok.mp done
    have ledger : (step account operation).ledger = looped.ledger :=
      congrArg Prod.snd (same.trans (finishFold_supervised finished).books)
    rw [ledger]
    refine trans ?_ (of_foldLoop loop)
    cases call with
    | settle world day => exact of_closeOutDelisted mutated
    | settlement world terms => exact of_recordSettlement mutated

end LedgerKept

/-- Whatever is called, every row that a ledger ever had is still there as it was. -/
theorem ledger_kept (account : Account) (calls : List (Operation zone)) :
    ∀ reached ∈ states step account calls, LedgerKept account.ledger reached.ledger :=
  states_invariant (fun reached => LedgerKept account.ledger reached.ledger)
    (fun reached call kept => kept.trans (.of_step reached call)) (.refl _) calls

/-- An order that is placed leaves the rows of the ledger as they are. -/
theorem order_kept :
    LedgerKept sampleAccount.ledger (step sampleAccount (.submit (sampleWorld 739770 14)
      (sampleIntent "first" "SYM" .buy 10 739770))).ledger :=
  ledger_kept sampleAccount [.submit _ _] _ (.tail _ (.head _))

end TradingEngine.Accounts
