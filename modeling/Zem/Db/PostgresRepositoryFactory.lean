import Zem.Library.Conninfo
import Zem.Protocol.Header

/-!
# PostgresRepositoryFactory: the pool and its connection string

Reference model of `Db/PostgresRepositoryFactory.cpp`.  `hardware_concurrency` is what the machine
reports, and what the factory does is the list of the strings with which it opens the sessions of
the pool, slot by slot.

* `connectString` — what `std::format` makes of the configuration.
* `Denotes` — the pairs give the five keywords the fields of the configuration, and no other.
* `conninfo_faithful_iff` — the string is read back as the configuration exactly if no field needs
  quotes.
-/

set_option autoImplicit false

namespace Zem

open CString (ascii)
open Conninfo (IsPlain)

structure PostgresDbConfig where
  address : Bytes
  port : Bytes
  name : Bytes
  user : Bytes
  password : Bytes
  poolSize : UInt64
  deriving DecidableEq, Repr

/-- `std::thread::hardware_concurrency() ? std::thread::hardware_concurrency() : 1`. -/
def concurrency (reported : UInt32) : UInt64 :=
  if reported ≠ 0 then reported.toUInt64 else 1

namespace PostgresRepositoryFactory

def poolSize (config : PostgresDbConfig) (reported : UInt32) : UInt64 :=
  if config.poolSize ≠ 0 then config.poolSize else 2 * concurrency reported

/-- `std::format("host={} port={} dbname={} user={} password={}", …)`. -/
def connectString (config : PostgresDbConfig) : Bytes :=
  ascii "host=" ++ config.address ++ ascii " port=" ++ config.port ++ ascii " dbname=" ++
    config.name ++ ascii " user=" ++ config.user ++ ascii " password=" ++ config.password

/-- `CreateAccountRepository`: the strings with which the slots of the pool are opened. -/
def createAccountRepository (config : PostgresDbConfig) (reported : UInt32) : List Bytes :=
  (List.range (poolSize config reported).toNat).map fun _ => connectString config

/-! ## What the string should mean -/

/-- The fields that go into the string. -/
def fields (config : PostgresDbConfig) : List Bytes :=
  [config.address, config.port, config.name, config.user, config.password]

/-- The keywords of the string, each with its field. -/
def pairs (config : PostgresDbConfig) : List Conninfo.Pair :=
  [(ascii "host", config.address), (ascii "port", config.port), (ascii "dbname", config.name),
    (ascii "user", config.user), (ascii "password", config.password)]

/-- The pairs bind the five keywords to the fields, and no other keyword. -/
structure Denotes (ps : List Conninfo.Pair) (config : PostgresDbConfig) : Prop where
  host : Conninfo.lookup ps (ascii "host") = some config.address
  port : Conninfo.lookup ps (ascii "port") = some config.port
  dbname : Conninfo.lookup ps (ascii "dbname") = some config.name
  user : Conninfo.lookup ps (ascii "user") = some config.user
  password : Conninfo.lookup ps (ascii "password") = some config.password
  no_other : ∀ k v, Conninfo.lookup ps k = some v → k ∈ (pairs config).map Prod.fst

theorem connectString_eq_join (config : PostgresDbConfig) :
    connectString config = Conninfo.join (pairs config) := by
  simp only [connectString, pairs, Conninfo.join, List.append_assoc]
  rfl

theorem isKeyword_pairs (config : PostgresDbConfig) :
    ∀ p ∈ pairs config, Conninfo.IsKeyword p.1 ∧ ∀ c ∈ p.1, c ≠ 0 := by
  have hall : ∀ k ∈ (pairs config).map Prod.fst,
      Conninfo.IsKeyword k ∧ k.all (fun c => c ≠ 0) = true := by
    simp only [pairs, List.map_cons, List.map_nil]
    decide
  intro p hp
  obtain ⟨hkey, hnull⟩ := hall p.1 (List.mem_map_of_mem hp)
  exact ⟨hkey, fun c hc => of_decide_eq_true (List.all_eq_true.mp hnull c hc)⟩

theorem keywords_nodup (config : PostgresDbConfig) :
    ((pairs config).map Prod.fst).Nodup := by
  simp only [pairs, List.map_cons, List.map_nil]
  decide

theorem forall_pairs_iff (config : PostgresDbConfig) (P : Bytes → Prop) :
    (∀ p ∈ pairs config, P p.2) ↔ ∀ f ∈ fields config, P f := by
  simp [pairs, fields]

/-- The pairs of the configuration denote it. -/
theorem denotes_pairs (config : PostgresDbConfig) : Denotes (pairs config) config := by
  have hlookup : ∀ p ∈ pairs config, Conninfo.lookup (pairs config) p.1 = some p.2 :=
    fun p hp => Conninfo.lookup_of_mem (keywords_nodup config) hp
  simp only [pairs, List.forall_mem_cons] at hlookup
  obtain ⟨hhost, hport, hname, huser, hpassword, _⟩ := hlookup
  refine ⟨hhost, hport, hname, huser, hpassword, fun k v h => ?_⟩
  exact List.mem_map_of_mem (f := Prod.fst) (Conninfo.mem_of_lookup h)

/-- **The connection string means what the configuration says** exactly if no field needs quotes:
    none has white space, a backslash or a null in it, or starts with a quote. -/
theorem conninfo_faithful_iff (config : PostgresDbConfig) (reported : UInt32)
    (hne : ∀ f ∈ fields config, f ≠ []) :
    ∀ s ∈ createAccountRepository config reported,
      ((∃ ps, Conninfo.parse s = some ps ∧ Denotes ps config) ↔
        ∀ f ∈ fields config, IsPlain f) := by
  intro s hs
  obtain ⟨_, _, rfl⟩ := List.mem_map.mp hs
  have hkeys := isKeyword_pairs config
  have hvalues := (forall_pairs_iff config (· ≠ [])).mpr hne
  have hiff := Conninfo.parse_join_iff (List.cons_ne_nil _ _) hkeys hvalues (keywords_nodup config)
  rw [connectString_eq_join, ← forall_pairs_iff config IsPlain]
  constructor
  · rintro ⟨ps, hparse, hden⟩
    apply hiff.mp
    refine ⟨ps, hparse, ?_⟩
    simp only [List.forall_mem_cons]
    exact ⟨hden.host, hden.port, hden.dbname, hden.user, hden.password, by simp⟩
  · intro hplain
    exact ⟨_, Conninfo.parse_join (List.cons_ne_nil _ _) hkeys hvalues hplain,
      denotes_pairs config⟩

/-- The defaults of the program, but for the password. -/
def defaultsWith (password : Bytes) : PostgresDbConfig :=
  ⟨ascii "127.0.0.1", ascii "5432", ascii "wms_db", ascii "wms_manager", password, 1⟩

/-- The rule at a password with an equals sign in it. -/
theorem conninfo_faithful_equals_sign :
    ∃ ps, Conninfo.parse (connectString (defaultsWith (ascii "a=b'"))) = some ps ∧
      Denotes ps (defaultsWith (ascii "a=b'")) :=
  (conninfo_faithful_iff (defaultsWith (ascii "a=b'")) 0 (by decide)
    (connectString (defaultsWith (ascii "a=b'"))) (by decide)).mpr (by decide)

/-- A password that redirects the connection. -/
theorem password_redirects :
    (∀ f ∈ fields (defaultsWith (ascii "x host=y")), f ≠ []) ∧
      connectString (defaultsWith (ascii "x host=y")) ∈
        createAccountRepository (defaultsWith (ascii "x host=y")) 0 ∧
      ¬ ∃ ps, Conninfo.parse (connectString (defaultsWith (ascii "x host=y"))) = some ps ∧
        Denotes ps (defaultsWith (ascii "x host=y")) := by
  refine ⟨by decide, by decide, ?_⟩
  rintro ⟨ps, hparse, hden⟩
  have hread : Conninfo.parse (connectString (defaultsWith (ascii "x host=y"))) =
      some (pairs (defaultsWith (ascii "x")) ++ [(ascii "host", ascii "y")]) := by decide
  rw [hread, Option.some.injEq] at hparse
  subst hparse
  have hhost := hden.host
  revert hhost
  decide

end PostgresRepositoryFactory

end Zem
