import ElektronPool.Js.Text

/-!
# Configuration of the PPLNS services

`ConfigService` hands out the raw texts of the environment. Each getter below is the one
of its service; the numeric ones fall back to a default unless the text reads as a
positive number. `Settings` is what the services read, with the range of the fee as a
field, so that every fee in `[0, 100)` is a setting and nothing else is.
-/

namespace ElektronPool.Pplns
set_option autoImplicit false

abbrev ConfigService := String → Option String

/-- `parseInt(text, 10)` when finite and positive, else the default. -/
def positiveSetting (config : ConfigService) (key : String) (default : ℕ) : ℕ :=
  match Js.parseIntSetting 10 (config key) with
  | .fin q => if 0 < q then ⌊q⌋.toNat else default
  | _ => default

theorem positiveSetting_pos (config : ConfigService) (key : String) {default : ℕ} (positive : 0 < default) :
    0 < positiveSetting config key default := by
  unfold positiveSetting
  split
  · rename_i q read
    split
    · rename_i set
      exact Int.pos_iff_toNat_pos.mp (Int.floor_pos.mpr (Js.one_le_of_parseInt read set))
    · exact positive
  · exact positive

def getWindowMinutes (config : ConfigService) : ℕ := positiveSetting config "PPLNS_WINDOW_MINUTES" 90

def getMinPayoutThresholdSats (config : ConfigService) : ℕ :=
  positiveSetting config "MIN_PAYOUT_THRESHOLD_SATS" 100000

def getCoinbaseMaturity (config : ConfigService) : ℕ := positiveSetting config "COINBASE_MATURITY" 100

def getConfirmationsRequired (config : ConfigService) : ℕ :=
  positiveSetting config "PAYOUT_CONFIRMATIONS_REQUIRED" 1

/-- `RewardCalculatorService.getFeePercent`: a finite number in `[0, 100)`, else 0. -/
def getFeePercent (config : ConfigService) : ℚ :=
  match Js.parseFloat ((config "POOL_FEE_PERCENT").getD "undefined") with
  | .fin q => if 0 ≤ q ∧ q < 100 then q else 0
  | _ => 0

def isDryRun (config : ConfigService) : Bool :=
  ((config "PAYOUT_DRY_RUN").map fun s => s.toLower == "true").getD false

/-- An empty passphrase counts as none. -/
def walletPassphrase (config : ConfigService) : Option String :=
  (config "WALLET_PASSPHRASE").filter (· ≠ "")

structure Settings where
  windowMinutes : ℕ
  feePercent : ℚ
  minPayoutThresholdSats : ℕ
  coinbaseMaturity : ℕ
  confirmationsRequired : ℕ
  dryRun : Bool
  walletPassphrase : Option String
  fee_nonneg : 0 ≤ feePercent
  fee_lt : feePercent < 100

theorem getFeePercent_mem (config : ConfigService) :
    0 ≤ getFeePercent config ∧ getFeePercent config < 100 := by
  unfold getFeePercent
  split
  · split
    · assumption
    · norm_num
  · norm_num

def Settings.ofConfig (config : ConfigService) : Settings where
  windowMinutes := getWindowMinutes config
  feePercent := getFeePercent config
  minPayoutThresholdSats := getMinPayoutThresholdSats config
  coinbaseMaturity := getCoinbaseMaturity config
  confirmationsRequired := getConfirmationsRequired config
  dryRun := isDryRun config
  walletPassphrase := Pplns.walletPassphrase config
  fee_nonneg := (getFeePercent_mem config).1
  fee_lt := (getFeePercent_mem config).2

/-- The settings of an empty environment. -/
def Settings.defaults : Settings := .ofConfig fun _ => none

end ElektronPool.Pplns
