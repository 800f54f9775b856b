import AsyncProcfs.KernelVersion
import AsyncProcfs.OrdinaryFiles
import AsyncProcfs.Results

/-!
# The semaphore limits

`/proc/sys/kernel/sem` holds four numbers between white space. The reader takes
the first four tokens in their order and ignores what follows them.
-/

namespace Semaphores

open ProgramRuns Results Words Text IntText Procfs KernelVersion OrdinaryFiles

structure SemaphoreLimits where
  semmsl : UInt64
  semmns : UInt64
  semopm : UInt64
  semmni : UInt64
  deriving DecidableEq, Repr

namespace SemaphoreLimits

/-- `from_str` from the iterator on: first every missing token, then every parse. -/
def fromTokens (s : List Str) : Except Str SemaphoreLimits := do
  let (semmsl, s) ← nextOr "Missing SEMMSL" s
  let (semmns, s) ← nextOr "Missing SEMMNS" s
  let (semopm, s) ← nextOr "Missing SEMOPM" s
  let (semmni, _) ← nextOr "Missing SEMMNI" s
  let semmsl ← (parse UInt64 semmsl).mapError fun _ => "Failed to parse SEMMSL"
  let semmns ← (parse UInt64 semmns).mapError fun _ => "Failed to parse SEMMNS"
  let semopm ← (parse UInt64 semopm).mapError fun _ => "Failed to parse SEMOPM"
  let semmni ← (parse UInt64 semmni).mapError fun _ => "Failed to parse SEMMNI"
  return { semmsl, semmns, semopm, semmni }

def fromStr (s : Str) : Except Str SemaphoreLimits := fromTokens (splitAsciiWhitespace s)

def new {ε : Type} [ProcError ε] (procfs : AsyncProcfs) : Io ε SemaphoreLimits :=
  procfs.readValue fromStr ProcError.fromStr "sys/kernel/sem"

end SemaphoreLimits

section Grammar

/-- The text starts with the texts of four numbers. -/
def FourNumbers (s : Str) (msl mns opm mni : Nat) : Prop :=
  ∃ first second third fourth rest,
    splitAsciiWhitespace s = first :: second :: third :: fourth :: rest ∧
      NumberText first msl ∧ NumberText second mns ∧ NumberText third opm ∧ NumberText fourth mni

theorem fromTokens_eq_ok_iff (tokens : List Str) (limits : SemaphoreLimits) :
    SemaphoreLimits.fromTokens tokens = .ok limits ↔ ∃ first second third fourth rest,
      tokens = first :: second :: third :: fourth :: rest ∧
        parse UInt64 first = .ok limits.semmsl ∧ parse UInt64 second = .ok limits.semmns ∧
        parse UInt64 third = .ok limits.semopm ∧ parse UInt64 fourth = .ok limits.semmni := by
  rw [SemaphoreLimits.fromTokens]
  simp only [bind_eq_ok_iff, mapError_eq_ok_iff, Prod.exists, nextOr_eq_ok_iff]
  constructor
  · rintro ⟨first, _, rfl, second, _, rfl, third, _, rfl, fourth, rest, rfl,
      msl, first_ok, mns, second_ok, opm, third_ok, mni, fourth_ok, ok⟩
    cases ok
    exact ⟨first, second, third, fourth, rest, rfl, first_ok, second_ok, third_ok, fourth_ok⟩
  · rintro ⟨first, second, third, fourth, rest, rfl, first_ok, second_ok, third_ok, fourth_ok⟩
    exact ⟨first, _, rfl, second, _, rfl, third, _, rfl, fourth, rest, rfl,
      _, first_ok, _, second_ok, _, third_ok, _, fourth_ok, rfl⟩

theorem fromTokens_take (tokens : List Str) :
    SemaphoreLimits.fromTokens (tokens.take 4) = SemaphoreLimits.fromTokens tokens := by
  match tokens with
  | [] => rfl
  | [_] => rfl
  | [_, _] => rfl
  | [_, _, _] => rfl
  | _ :: _ :: _ :: _ :: _ => rfl

/-- What the parser makes of a text: which limits it gives, when it gives some, and how much
of the text it depends on. -/
structure Exact (s : Str) : Prop where
  values : ∀ limits, SemaphoreLimits.fromStr s = .ok limits ↔
    FourNumbers s limits.semmsl.toNat limits.semmns.toNat limits.semopm.toNat
      limits.semmni.toNat
  accepts : (∃ limits, SemaphoreLimits.fromStr s = .ok limits) ↔ ∃ msl mns opm mni,
    FourNumbers s msl mns opm mni ∧ msl < 2 ^ 64 ∧ mns < 2 ^ 64 ∧ opm < 2 ^ 64 ∧ mni < 2 ^ 64
  depends : ∀ t, (splitAsciiWhitespace t).take 4 = (splitAsciiWhitespace s).take 4 →
    SemaphoreLimits.fromStr t = SemaphoreLimits.fromStr s

theorem exact_fromStr (s : Str) : Exact s := by
  have values (limits : SemaphoreLimits) : SemaphoreLimits.fromStr s = .ok limits ↔
      FourNumbers s limits.semmsl.toNat limits.semmns.toNat limits.semopm.toNat
        limits.semmni.toNat := by
    have read (token : Str) (n : UInt64) :
        parse UInt64 token = .ok n ↔ NumberText token n.toNat :=
      parse_eq_ok_iff_numberText rfl rfl token
    rw [SemaphoreLimits.fromStr, fromTokens_eq_ok_iff, FourNumbers]
    simp only [read]
  refine ⟨values, ?_, fun t same => ?_⟩
  · constructor
    · rintro ⟨limits, ok⟩
      exact ⟨_, _, _, _, (values limits).mp ok, limits.semmsl.toNat_lt, limits.semmns.toNat_lt,
        limits.semopm.toNat_lt, limits.semmni.toNat_lt⟩
    · rintro ⟨msl, mns, opm, mni, four, first, second, third, fourth⟩
      refine ⟨⟨UInt64.ofNat msl, UInt64.ofNat mns, UInt64.ofNat opm, UInt64.ofNat mni⟩,
        (values _).mpr ?_⟩
      rw [UInt64.toNat_ofNat_of_lt' first, UInt64.toNat_ofNat_of_lt' second,
        UInt64.toNat_ofNat_of_lt' third, UInt64.toNat_ofNat_of_lt' fourth]
      exact four
  · rw [SemaphoreLimits.fromStr, SemaphoreLimits.fromStr, ← fromTokens_take, same,
      fromTokens_take]

end Grammar

section Reading

/-- The four numbers in the order of the file. -/
def SemaphoreLimits.toList (limits : SemaphoreLimits) : List UInt64 :=
  [limits.semmsl, limits.semmns, limits.semopm, limits.semmni]

variable {ε : Type} [ProcError ε]

/-- `SemaphoreLimits.from_str` on every text, and reading back four printed numbers. -/
theorem semaphoreLimits_exact : (∀ s, Exact s) ∧
    ∀ (c : Conditions) (io : AsyncProcfs) (w : World Files) (limits : SemaphoreLimits) (text : Str),
      Spelled isAsciiWhitespace (limits.toList.map display) text →
      c.openError (fileAt io "sys/kernel/sem") reading = none →
      c.readError (fileAt io "sys/kernel/sem") = none →
      w.env (fileAt io "sys/kernel/sem") = some (encodeUtf8 text) →
      exec (handle (files c)) (SemaphoreLimits.new io : Io ε SemaphoreLimits) w =
        (.ok limits, w) := by
  refine ⟨exact_fromStr, fun c io w limits text spelled opens reads present => ?_⟩
  have tokens : splitAsciiWhitespace (trim text) = limits.toList.map display := by
    rw [splitAsciiWhitespace, words_trim (blank_of_spelled spelled)]
    exact words_display (fun _ ascii => isWhitespace_of_ascii ascii) spelled
  have parsed : SemaphoreLimits.fromStr (trim text) = .ok limits := by
    rw [SemaphoreLimits.fromStr, tokens, fromTokens_eq_ok_iff]
    exact ⟨_, _, _, _, [], rfl, parse_display _, parse_display _, parse_display _,
      parse_display _⟩
  rw [SemaphoreLimits.new, exec_readValue c io _ w _ _ opens reads present, valueIn,
    decodeUtf8_encodeUtf8]
  dsimp only
  rw [parsed]
  rfl

theorem semaphoreLimits_exact_largest :
    exec (handle (files .calm)) (SemaphoreLimits.new slashProc : Io CoreError SemaphoreLimits)
        ⟨0, fun _ => some (encodeUtf8 "250\t18446744073709551615 32\t\t128\n".toList)⟩ =
      (.ok ⟨250, 18446744073709551615, 32, 128⟩,
        ⟨0, fun _ => some (encodeUtf8 "250\t18446744073709551615 32\t\t128\n".toList)⟩) := by
  have spelled : Spelled isAsciiWhitespace
      ((⟨250, 18446744073709551615, 32, 128⟩ : SemaphoreLimits).toList.map display)
      ("250".toList ++ ['\t'] ++ ("18446744073709551615".toList ++ [' '] ++
        ("32".toList ++ ['\t', '\t'] ++ ("128".toList ++ ['\n'] ++ [])))) :=
    .cons (List.all_eq_true.mp rfl) (fun _ => List.cons_ne_nil _ _)
      (.cons (List.all_eq_true.mp rfl) (fun _ => List.cons_ne_nil _ _)
        (.cons (List.all_eq_true.mp rfl) (fun _ => List.cons_ne_nil _ _)
          (.cons (List.all_eq_true.mp rfl) (fun more => absurd rfl more) .nil)))
  exact semaphoreLimits_exact.2 .calm slashProc _ _ _ spelled rfl rfl rfl

end Reading

end Semaphores
