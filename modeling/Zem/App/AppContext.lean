import Zem.Db.PostgresRepositoryFactory

/-!
# AppContext: the settings, the database and the threads of the program

Reference model of the settings of `Bootstrap/AppContext.cpp`: the variables of the environment,
`CreateDefault`, `InitDb` with the casts on the way to the thread pool, and the io threads that
`BuildServer` asks for.  `std::size_t` and `unsigned long` have 64 bits, `unsigned int` has 32.

* `getEnvOrDefaultSize_eq`, `getEnvOrDefaultPort_eq` — what is made of a numeral.
* `Honoured`, `ThreadsHonoured` — what a setting should come to.
* `numeric_settings_iff` — when it does.
-/

set_option autoImplicit false

namespace Zem

open CString (ascii Numeral)

/-- `std::getenv`. -/
abbrev Environment := String → Option CString

namespace AppContext

structure DbConfig where
  address : Bytes
  port : Bytes
  name : Bytes
  user : Bytes
  password : Bytes
  deriving DecidableEq, Repr

structure Config where
  db : DbConfig
  port : UInt16
  dbPoolSize : UInt64
  dbThreadCount : UInt64
  deriving DecidableEq, Repr

/-! ## The environment -/

/-- `GetEnv`: an empty variable counts as none. -/
def getEnv (env : Environment) (name : String) : Option CString :=
  match env name with
  | none => none
  | some value => if value.charAt 0 = 0 then none else some value

def getEnvOrDefault (env : Environment) (name : String) (defaultValue : Bytes) : Bytes :=
  match getEnv env name with
  | some value => value.bytes
  | none => defaultValue

def getEnvOrDefaultSize (env : Environment) (name : String) (defaultValue : UInt64) : UInt64 :=
  match getEnv env name with
  | some value =>
    let (parsed, stop) := CString.strtoul value.bytes
    if stop ≠ 0 ∧ value.charAt stop = 0 then parsed else defaultValue
  | none => defaultValue

def getEnvOrDefaultPort (env : Environment) (name : String) (defaultValue : UInt16) : UInt16 :=
  match getEnv env name with
  | some value =>
    let (parsed, stop) := CString.strtoul value.bytes
    if stop ≠ 0 ∧ value.charAt stop = 0 ∧ parsed ≤ 65535 then parsed.toUInt16 else defaultValue
  | none => defaultValue

/-- `CreateDefault`, up to the constructor. -/
def createDefault (env : Environment) : Config :=
  { db :=
      { address := getEnvOrDefault env "ZEM_DB_ADDRESS" (ascii "127.0.0.1")
        port := getEnvOrDefault env "ZEM_DB_PORT" (ascii "5432")
        name := getEnvOrDefault env "ZEM_DB_NAME" (ascii "wms_db")
        user := getEnvOrDefault env "ZEM_DB_USER" (ascii "wms_manager")
        password := getEnvOrDefault env "ZEM_DB_PASSWORD" (ascii "kyungjoon_1997") }
    port := getEnvOrDefaultPort env "ZEM_PORT" 47213
    dbPoolSize := getEnvOrDefaultSize env "ZEM_DB_POOL_SIZE" 0
    dbThreadCount := getEnvOrDefaultSize env "ZEM_DB_THREAD_COUNT" 0 }

/-! ## The database -/

/-- The thread pool and the repository; the repository is given by the strings its slots are
    opened with. -/
structure Db where
  threads : UInt32
  slots : List Bytes
  deriving DecidableEq, Repr

def threadCount (config : Config) (reported : UInt32) : UInt64 :=
  if config.dbThreadCount ≠ 0 then config.dbThreadCount else max 2 (concurrency reported)

def postgresDbConfig (config : Config) : PostgresDbConfig :=
  { address := config.db.address
    port := config.db.port
    name := config.db.name
    user := config.db.user
    password := config.db.password
    poolSize := config.dbPoolSize }

/-- `InitDb`. -/
def initDb (config : Config) (reported : UInt32) : Db :=
  { threads := (threadCount config reported).toUInt32
    slots := PostgresRepositoryFactory.createAccountRepository (postgresDbConfig config) reported }

/-! ## The server -/

/-- `m_thread_pool_size` of `Server`, by its constructor. -/
def serverThreads (threadPoolSize reported : UInt32) : UInt32 :=
  if threadPoolSize = 0 then if reported ≠ 0 then reported else 1 else threadPoolSize

/-- `BuildServer`: the io threads, of which it leaves the number at its default. -/
def buildServer (reported : UInt32) : UInt32 := serverThreads 0 reported

/-! ## What is made of a numeral -/

/-- The variable is set to a decimal numeral for `n`. -/
def Reads (env : Environment) (name : String) (n : Int) : Prop :=
  ∃ value, env name = some value ∧ Numeral value.bytes n

variable {env : Environment} {name : String}

theorem reads_unique {n m : Int} (h : Reads env name n) (h' : Reads env name m) : n = m := by
  obtain ⟨value, hv, hn⟩ := h
  obtain ⟨value', hv', hm⟩ := h'
  rw [hv, Option.some.injEq] at hv'
  subst hv'
  exact CString.numeral_unique hn hm

/-- There is one numeral that a variable may be. -/
theorem forall_reads_iff {n : Int} (h : Reads env name n) (P : Int → Prop) :
    (∀ m, Reads env name m → P m) ↔ P n :=
  ⟨fun hall => hall n h, fun hn _ hm => reads_unique h hm ▸ hn⟩

/-- A variable that `GetEnv` does not pass on is no numeral. -/
theorem getEnv_of_reads {n : Int} (h : Reads env name n) :
    ∃ value, getEnv env name = some value ∧ CString.strtoul value.bytes =
      (CString.wrap n, value.bytes.length) ∧ value.bytes.length ≠ 0 := by
  obtain ⟨value, hv, hn⟩ := h
  have hwhole := (CString.strtoul_whole_iff value.bytes).mpr ⟨n, hn⟩
  have heq := CString.strtoul_of_numeral hn
  rw [heq] at hwhole
  have hset : value.charAt 0 ≠ 0 := by
    intro h0
    have := (value.charAt_eq_null_iff 0).mp h0
    exact hwhole.1 (Nat.le_zero.mp this)
  refine ⟨value, ?_, heq, hwhole.1⟩
  simp only [getEnv, hv, if_neg hset]

/-- A variable that is no numeral is not taken whole. -/
theorem not_whole_of_not_reads (h : ¬ ∃ n, Reads env name n) {value : CString}
    (hv : getEnv env name = some value) :
    ¬ ((CString.strtoul value.bytes).2 ≠ 0 ∧
      value.charAt (CString.strtoul value.bytes).2 = 0) := by
  rw [CString.charAt_eq_null_iff, CString.strtoul_whole_iff]
  rintro ⟨n, hn⟩
  unfold getEnv at hv
  split at hv
  · cases hv
  · rename_i value' hset
    split at hv
    · cases hv
    · cases hv
      exact h ⟨n, value, hset, hn⟩

theorem getEnvOrDefaultSize_eq (env : Environment) (name : String) (defaultValue : UInt64) :
    (∀ n, Reads env name n → getEnvOrDefaultSize env name defaultValue = CString.wrap n) ∧
      ((¬ ∃ n, Reads env name n) →
        getEnvOrDefaultSize env name defaultValue = defaultValue) := by
  refine ⟨fun n hn => ?_, fun h => ?_⟩
  · obtain ⟨value, hget, hstr, hne⟩ := getEnv_of_reads hn
    simp only [getEnvOrDefaultSize, hget, hstr]
    rw [if_pos ⟨hne, (value.charAt_eq_null_iff _).mpr (Nat.le_refl _)⟩]
  · cases hget : getEnv env name with
    | none => simp only [getEnvOrDefaultSize, hget]
    | some value =>
      simp only [getEnvOrDefaultSize, hget]
      rw [if_neg (not_whole_of_not_reads h hget)]

theorem getEnvOrDefaultPort_eq (env : Environment) (name : String) (defaultValue : UInt16) :
    (∀ n, Reads env name n → getEnvOrDefaultPort env name defaultValue =
        if CString.wrap n ≤ 65535 then (CString.wrap n).toUInt16 else defaultValue) ∧
      ((¬ ∃ n, Reads env name n) →
        getEnvOrDefaultPort env name defaultValue = defaultValue) := by
  refine ⟨fun n hn => ?_, fun h => ?_⟩
  · obtain ⟨value, hget, hstr, hne⟩ := getEnv_of_reads hn
    simp only [getEnvOrDefaultPort, hget, hstr]
    have hend := (value.charAt_eq_null_iff _).mpr (Nat.le_refl value.bytes.length)
    simp only [ne_eq, hne, not_false_eq_true, hend, true_and]
  · cases hget : getEnv env name with
    | none => simp only [getEnvOrDefaultPort, hget]
    | some value =>
      simp only [getEnvOrDefaultPort, hget]
      rw [if_neg fun hall => not_whole_of_not_reads h hget ⟨hall.1, hall.2.1⟩]

/-! ## What a setting should come to -/

/-- A numeral that fits `bits` bits comes to its value, and everything else to the default. -/
structure Honoured (env : Environment) (name : String) (bits defaultValue result : Nat) : Prop where
  exact : ∀ n, Reads env name n → 0 ≤ n → n < 2 ^ bits → (result : Int) = n
  rejected : (∀ n, Reads env name n → ¬ (0 ≤ n ∧ n < 2 ^ bits)) → result = defaultValue

/-- The thread pool has the threads that were asked for, or the default; it always has some. -/
def ThreadsHonoured (config : Config) (reported : UInt32) : Prop :=
  (initDb config reported).threads.toNat =
      (if config.dbThreadCount = 0 then max 2 (concurrency reported).toNat
        else config.dbThreadCount.toNat) ∧
    (initDb config reported).threads ≠ 0

/-- Where there is a numeral, a setting is honoured exactly if it is for this one. -/
theorem honoured_iff_of_reads {n : Int} (hn : Reads env name n)
    {bits defaultValue result : Nat} :
    Honoured env name bits defaultValue result ↔
      if 0 ≤ n ∧ n < 2 ^ bits then (result : Int) = n else result = defaultValue := by
  constructor
  · intro h
    split
    · rename_i hfits
      exact h.exact n hn hfits.1 hfits.2
    · rename_i hfits
      exact h.rejected fun m hm => reads_unique hn hm ▸ hfits
  · intro h
    split at h
    · rename_i hfits
      refine ⟨fun m hm _ _ => reads_unique hn hm ▸ h, fun hno => absurd hfits (hno n hn)⟩
    · rename_i hfits
      exact ⟨fun m hm h0 hlt => absurd ⟨h0, hlt⟩ (reads_unique hn hm ▸ hfits), fun _ => h⟩

theorem honoured_of_not_reads (h : ¬ ∃ n, Reads env name n) {bits defaultValue : Nat} :
    Honoured env name bits defaultValue defaultValue :=
  ⟨fun n hn => absurd ⟨n, hn⟩ h, fun _ => rfl⟩

/-! ## When it does -/

/-- The numeral fits `std::size_t`, or what `strtoul` makes of it happens to be the default. -/
def SizeSafe (n : Int) (defaultValue : UInt64) : Prop :=
  0 ≤ n ∧ n < 2 ^ 64 ∨ -2 ^ 64 < n ∧ n < 0 ∧ (defaultValue.toNat : Int) = n + 2 ^ 64 ∨
    (n ≤ -2 ^ 64 ∨ 2 ^ 64 ≤ n) ∧ (defaultValue.toNat : Int) = 2 ^ 64 - 1

/-- The numeral is not a negative one that `strtoul` negates into the range of a port, unless
    that port happens to be the default. -/
def PortSafe (n : Int) (defaultValue : UInt16) : Prop :=
  ¬ (-2 ^ 64 < n ∧ n ≤ 65535 - 2 ^ 64) ∨ (defaultValue.toNat : Int) = n + 2 ^ 64

theorem size_honoured_iff (env : Environment) (name : String) (defaultValue : UInt64) :
    Honoured env name 64 defaultValue.toNat (getEnvOrDefaultSize env name defaultValue).toNat ↔
      ∀ n, Reads env name n → SizeSafe n defaultValue := by
  obtain ⟨hnum, hother⟩ := getEnvOrDefaultSize_eq env name defaultValue
  by_cases hset : ∃ n, Reads env name n
  · obtain ⟨n, hn⟩ := hset
    rw [honoured_iff_of_reads hn, forall_reads_iff hn, hnum n hn, SizeSafe]
    rcases CString.wrap_cases n with ⟨hfits, hwrap⟩ | ⟨hneg, hwrap⟩ | ⟨hout, hwrap⟩
    · rw [if_pos hfits]
      exact ⟨fun _ => Or.inl hfits, fun _ => hwrap⟩
    · rw [if_neg (by omega)]
      omega
    · rw [if_neg (by omega)]
      omega
  · rw [hother hset]
    exact ⟨fun _ n hn => absurd ⟨n, hn⟩ hset, fun _ => honoured_of_not_reads hset⟩

theorem port_honoured_iff (env : Environment) (name : String) (defaultValue : UInt16) :
    Honoured env name 16 defaultValue.toNat (getEnvOrDefaultPort env name defaultValue).toNat ↔
      ∀ n, Reads env name n → PortSafe n defaultValue := by
  obtain ⟨hnum, hother⟩ := getEnvOrDefaultPort_eq env name defaultValue
  by_cases hset : ∃ n, Reads env name n
  · obtain ⟨n, hn⟩ := hset
    -- the cast keeps what the comparison lets through
    have hport : (getEnvOrDefaultPort env name defaultValue).toNat =
        if (CString.wrap n).toNat ≤ 65535 then (CString.wrap n).toNat
        else defaultValue.toNat := by
      rw [hnum n hn]
      split
      · rename_i hle
        have hle : (CString.wrap n).toNat ≤ 65535 := UInt64.le_iff_toNat_le.mp hle
        rw [if_pos hle, UInt64.toNat_toUInt16]
        exact Nat.mod_eq_of_lt (by omega)
      · rename_i hgt
        have hgt : ¬ (CString.wrap n).toNat ≤ 65535 :=
          fun hle => hgt (UInt64.le_iff_toNat_le.mpr hle)
        rw [if_neg hgt]
    rw [honoured_iff_of_reads hn, forall_reads_iff hn, hport, PortSafe]
    rcases CString.wrap_cases n with ⟨hfits, hwrap⟩ | ⟨hneg, hwrap⟩ | ⟨hout, hwrap⟩
    · split <;> split <;> omega
    · split <;> split <;> omega
    · split <;> split <;> omega
  · rw [hother hset]
    exact ⟨fun _ n hn => absurd ⟨n, hn⟩ hset, fun _ => honoured_of_not_reads hset⟩

theorem concurrency_bounds (reported : UInt32) :
    1 ≤ (concurrency reported).toNat ∧ (concurrency reported).toNat < 2 ^ 32 := by
  unfold concurrency
  split
  · rename_i hne
    have hpos : reported.toNat ≠ 0 := fun h => hne (UInt32.toNat_inj.mp h)
    rw [UInt32.toNat_toUInt64]
    exact ⟨Nat.pos_of_ne_zero hpos, reported.toNat_lt⟩
  · exact ⟨Nat.le_refl 1, by decide⟩

theorem toNat_max (a b : UInt64) : (max a b).toNat = max a.toNat b.toNat := by
  have hmax : max a b = if a ≤ b then b else a := rfl
  rw [hmax, Nat.max_def]
  by_cases hle : a ≤ b
  · rw [if_pos hle, if_pos (UInt64.le_iff_toNat_le.mp hle)]
  · rw [if_neg hle, if_neg fun h => hle (UInt64.le_iff_toNat_le.mpr h)]

theorem toNat_threadCount (config : Config) (reported : UInt32) :
    (threadCount config reported).toNat =
      if config.dbThreadCount = 0 then max 2 (concurrency reported).toNat
      else config.dbThreadCount.toNat := by
  unfold threadCount
  by_cases h0 : config.dbThreadCount = 0
  · rw [if_neg (not_not_intro h0), if_pos h0, toNat_max]
    rfl
  · rw [if_pos h0, if_neg h0]

theorem threads_honoured_iff (config : Config) (reported : UInt32) :
    ThreadsHonoured config reported ↔ config.dbThreadCount.toNat < 2 ^ 32 := by
  have hbounds := concurrency_bounds reported
  have hcount := toNat_threadCount config reported
  have hthreads : (initDb config reported).threads.toNat =
      (threadCount config reported).toNat % 2 ^ 32 := UInt64.toNat_toUInt32 _
  have hzero : (initDb config reported).threads ≠ 0 ↔
      (initDb config reported).threads.toNat ≠ 0 := by
    rw [Ne, Ne, ← UInt32.toNat_inj]
    rfl
  rw [ThreadsHonoured, hzero, hthreads, hcount]
  by_cases h0 : config.dbThreadCount = 0
  · rw [if_pos h0, h0]
    have : (0 : UInt64).toNat = 0 := rfl
    omega
  · have hpos : config.dbThreadCount.toNat ≠ 0 := fun h => h0 (UInt64.toNat_inj.mp h)
    rw [if_neg h0]
    omega

/-- **Numeric settings are honoured or rejected** exactly in these cases.  A size is, unless its
    variable is a numeral that is negative or past `2 ^ 64`; a port is, unless its variable is a
    negative numeral within 65535 of `-2 ^ 64`; and the number of threads is, unless `2 ^ 32` or
    more are asked for. -/
theorem numeric_settings_iff (env : Environment) (name : String) (defaultSize : UInt64)
    (defaultPort : UInt16) (config : Config) (reported : UInt32) :
    (Honoured env name 64 defaultSize.toNat (getEnvOrDefaultSize env name defaultSize).toNat ↔
      ∀ n, Reads env name n → SizeSafe n defaultSize) ∧
    (Honoured env name 16 defaultPort.toNat (getEnvOrDefaultPort env name defaultPort).toNat ↔
      ∀ n, Reads env name n → PortSafe n defaultPort) ∧
    (ThreadsHonoured config reported ↔ config.dbThreadCount.toNat < 2 ^ 32) :=
  ⟨size_honoured_iff env name defaultSize, port_honoured_iff env name defaultPort,
    threads_honoured_iff config reported⟩

/-- The variables of a text, whatever their name. -/
def allSet (literal : String) : Environment := fun _ => some (.ofText (ascii literal))

/-- `-1` for a size, `-18446744073709551615` for a port, and `2 ^ 32` threads. -/
theorem numeric_settings_wrap :
    ¬ Honoured (allSet "-1") "ZEM_DB_POOL_SIZE" 64 0
        (createDefault (allSet "-1")).dbPoolSize.toNat ∧
      ¬ Honoured (allSet "-18446744073709551615") "ZEM_PORT" 16 47213
        (createDefault (allSet "-18446744073709551615")).port.toNat ∧
      ¬ ThreadsHonoured (createDefault (allSet "4294967296")) 8 := by
  refine ⟨fun h => ?_, fun h => ?_, fun h => h.2 (by decide)⟩
  · have hreads : Reads (allSet "-1") "ZEM_DB_POOL_SIZE" (-1) :=
      ⟨_, rfl, [], .minus, ascii "1", rfl, List.forall_mem_nil _, by decide,
        List.all_eq_true.mp (by decide), by decide⟩
    have hsafe := (size_honoured_iff _ _ 0).mp h _ hreads
    unfold SizeSafe at hsafe
    revert hsafe
    decide
  · have hreads : Reads (allSet "-18446744073709551615") "ZEM_PORT" (-18446744073709551615) :=
      ⟨_, rfl, [], .minus, ascii "18446744073709551615", rfl, List.forall_mem_nil _, by decide,
        List.all_eq_true.mp (by decide), by decide⟩
    have hsafe := (port_honoured_iff _ _ 47213).mp h _ hreads
    unfold PortSafe at hsafe
    revert hsafe
    decide

end AppContext

end Zem
