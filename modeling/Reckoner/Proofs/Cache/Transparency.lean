import Reckoner.Proofs.Except
import Reckoner.Proofs.Session

/-!
# The cache does not show

A calculator with a cache answers every series of requests as one without. What carries
the argument is that a cache is faithful: each expression in it is what its text is read
as by the settings of the calculator, so that a hit gives what a miss would have given. A
new cache is faithful because it is empty, and hits, misses, texts that are refused, caches
that overflow and caches that are cleared leave it so.

Two sessions with faithful calculators of the same settings thus simulate each other, and a
calculator without a cache is faithful.
-/

set_option autoImplicit false

namespace Reckoner

/-- Every expression in the cache is what its text is read as. -/
def Cache.Faithful (settings : Settings) (cache : Cache) : Prop :=
  ∀ (text : String) (tree : Expr), cache.find? text = some tree → settings.parse text = .ok tree

namespace Cache

variable {settings : Settings} {cache : Cache}

/-- Nothing is found in a new cache. -/
theorem find?_ofCapacity (capacity : Nat) (text : String) :
    (ofCapacity capacity).find? text = none := by
  simp [find?, ofCapacity]

/-- A new cache is faithful. -/
theorem faithful_ofCapacity (settings : Settings) (capacity : Nat) :
    (ofCapacity capacity).Faithful settings := by
  intro text tree hfound
  rw [find?_ofCapacity] at hfound
  contradiction

/-- An emptied cache is faithful. -/
theorem faithful_clear (settings : Settings) (cache : Cache) :
    cache.clear.Faithful settings := by
  intro text tree hfound
  rw [find?_clear] at hfound
  contradiction

/-- A faithful cache stays so when a text is kept with what it is read as. -/
theorem Faithful.insert (hcache : cache.Faithful settings) {text : String} {tree : Expr}
    (htree : settings.parse text = .ok tree) : (cache.insert text tree).Faithful settings := by
  intro other found hfound
  rw [find?_insert] at hfound
  split at hfound
  case isTrue hsame =>
    obtain rfl := Option.some.inj hfound
    rw [← hsame]
    exact htree
  case isFalse =>
    split at hfound
    case isTrue => contradiction
    case isFalse => exact hcache other found hfound

end Cache

/-- The cache of the calculator is faithful to its settings, if it has one. -/
def Calculator.Faithful (calculator : Calculator) : Prop :=
  ∀ cache, calculator.cache = some cache → cache.Faithful calculator.settings

namespace Calculator

variable {calculator : Calculator}

/-- A calculator without a cache is faithful. -/
theorem faithful_of_cache_eq_none (h : calculator.cache = none) : calculator.Faithful := by
  intro cache hcache
  rw [h] at hcache
  contradiction

/-- A new calculator is faithful, with a cache of any capacity or without one. -/
theorem faithful_mk (settings : Settings) (capacity : Option Nat) :
    Faithful { settings, cache := capacity.map Cache.ofCapacity } := by
  intro cache hcache
  obtain ⟨capacity, -, rfl⟩ := Option.map_eq_some_iff.mp hcache
  exact Cache.faithful_ofCapacity settings capacity

/-- A calculator with a new cache is faithful. -/
theorem faithful_withCache (calculator : Calculator) (capacity : Nat) :
    (calculator.withCache capacity).Faithful := by
  intro cache hcache
  obtain rfl := Option.some.inj hcache
  exact Cache.faithful_ofCapacity _ capacity

/-- A calculator is faithful after its cache is cleared. -/
theorem faithful_clearCache (calculator : Calculator) : calculator.clearCache.Faithful := by
  intro cache hcache
  have hmap : calculator.cache.map Cache.clear = some cache := hcache
  obtain ⟨old, -, rfl⟩ := Option.map_eq_some_iff.mp hmap
  exact Cache.faithful_clear _ old

/-- What a faithful calculator reads is what its settings read, and it stays faithful to
them. -/
theorem Faithful.parse (h : calculator.Faithful) (text : String) :
    (calculator.parse text).result = calculator.settings.parse text ∧
      (calculator.parse text).calculator.settings = calculator.settings ∧
      (calculator.parse text).calculator.Faithful := by
  unfold Calculator.parse
  split
  case h_1 hcache => exact ⟨rfl, rfl, h⟩
  case h_2 cache hcache =>
    split
    case h_1 tree hfound => exact ⟨(h cache hcache text tree hfound).symm, rfl, h⟩
    case h_2 =>
      have hreport : (calculator.settings.report text).1 = calculator.settings.parse text := rfl
      unfold parseUncached
      dsimp only
      rw [hreport]
      cases hread : calculator.settings.parse text with
      | error error => exact ⟨rfl, rfl, h⟩
      | ok tree =>
        refine ⟨rfl, rfl, ?_⟩
        intro kept hkept
        obtain rfl := Option.some.inj hkept
        exact (h cache hcache).insert hread

end Calculator

/-- No request changes the settings of a faithful calculator, and it stays faithful to them. -/
theorem Session.faithful_after (source : Nat → Float) {session : Session}
    (h : session.calculator.Faithful) (requests : List Request) :
    (session.after source requests).calculator.settings = session.calculator.settings ∧
      (session.after source requests).calculator.Faithful := by
  induction requests generalizing session with
  | nil => exact ⟨rfl, h⟩
  | cons request requests ih =>
    have hanswer : (session.answer source request).2.calculator.settings =
          session.calculator.settings ∧
        (session.answer source request).2.calculator.Faithful := by
      rw [answer_calculator]
      cases request.text? with
      | none => exact ⟨rfl, Calculator.faithful_clearCache _⟩
      | some text => exact (h.parse text).2
    obtain ⟨hsettings, hfaithful⟩ := ih hanswer.2
    exact ⟨hsettings.trans hanswer.1, hfaithful⟩

/-- Two sessions that have drawn as many random numbers, with faithful calculators of the
same settings. -/
structure Session.Alike (a b : Session) : Prop where
  settings : a.calculator.settings = b.calculator.settings
  drawn : a.drawn = b.drawn
  left : a.calculator.Faithful
  right : b.calculator.Faithful

namespace Session

variable {a b : Session} (source : Nat → Float)

/-- One reading in both sessions: the results are equal, and the sessions stay alike with
any number of further random numbers drawn in both. -/
theorem Alike.parse (h : Alike a b) (text : String) :
    (a.calculator.parse text).result = (b.calculator.parse text).result ∧
      ∀ draws : Nat, Alike ⟨(a.calculator.parse text).calculator, a.drawn + draws⟩
        ⟨(b.calculator.parse text).calculator, b.drawn + draws⟩ := by
  obtain ⟨hresultA, hsettingsA, hfaithfulA⟩ := h.left.parse text
  obtain ⟨hresultB, hsettingsB, hfaithfulB⟩ := h.right.parse text
  constructor
  · rw [hresultA, hresultB, h.settings]
  · intro draws
    refine ⟨?_, ?_, hfaithfulA, hfaithfulB⟩
    · show (a.calculator.parse text).calculator.settings =
        (b.calculator.parse text).calculator.settings
      rw [hsettingsA, hsettingsB, h.settings]
    · show a.drawn + draws = b.drawn + draws
      rw [h.drawn]

/-- Sessions that are alike give the same answer and stay alike. -/
theorem Alike.answer (h : Alike a b) (request : Request) :
    (a.answer source request).1 = (b.answer source request).1 ∧
      Alike (a.answer source request).2 (b.answer source request).2 := by
  cases request with
  | parse text =>
    obtain ⟨hresult, hnext⟩ := h.parse text
    simp only [Session.answer, hresult]
    exact ⟨trivial, hnext 0⟩
  | evaluate text bindings =>
    obtain ⟨hresult, hnext⟩ := h.parse text
    have hcontext : a.context source bindings = b.context source bindings := by
      rw [context, context, h.drawn]
    simp only [Session.answer, Calculator.evaluate, hresult, hcontext]
    cases (b.calculator.parse text).result with
    | error error => exact ⟨rfl, hnext 0⟩
    | ok tree => exact ⟨rfl, hnext _⟩
  | formula text parameters =>
    obtain ⟨hresult, hnext⟩ := h.parse text
    simp only [Session.answer, Calculator.formula, hresult]
    exact ⟨trivial, hnext 0⟩
  | clearCache =>
    exact ⟨rfl, h.settings, h.drawn, Calculator.faithful_clearCache _,
      Calculator.faithful_clearCache _⟩

/-- Sessions that are alike give the same answers. -/
theorem Alike.answers (h : Alike a b) (requests : List Request) :
    a.answers source requests = b.answers source requests := by
  induction requests generalizing a b with
  | nil => rfl
  | cons request requests ih =>
    obtain ⟨hresponse, hnext⟩ := h.answer source request
    rw [Session.answers, Session.answers, hresponse, ih hnext]

/-- Sessions that are alike stay alike over any series of requests. -/
theorem Alike.after (h : Alike a b) (requests : List Request) :
    Alike (a.after source requests) (b.after source requests) := by
  induction requests generalizing a b with
  | nil => exact h
  | cons request requests ih => exact ih (h.answer source request).2

/-- A session without a cache only counts the random numbers that it has drawn. -/
theorem after_eq_of_uncached (settings : Settings) (drawn : Nat) (requests : List Request) :
    ∃ n, (Session.mk { settings } drawn).after source requests = ⟨{ settings }, n⟩ := by
  induction requests generalizing drawn with
  | nil => exact ⟨drawn, rfl⟩
  | cons request requests ih =>
    have hstep : ∃ n, ((Session.mk { settings } drawn).answer source request).2 =
        ⟨{ settings }, n⟩ := by
      cases request with
      | evaluate text bindings =>
        simp only [Session.answer, Calculator.evaluate, Calculator.parse]
        cases (settings.report text).1 <;> exact ⟨_, rfl⟩
      | _ => exact ⟨drawn, rfl⟩
    obtain ⟨n, hn⟩ := hstep
    rw [Session.after, hn]
    exact ih n

end Session

/-- **The cache does not show.** With a cache of any capacity, a calculator gives the same
answers to every series of requests as without one, whatever its settings: the same
expressions and variables, values and traces, formulas, and errors. Each answer is the one
that a calculator of these settings without a cache, which has seen no request before,
gives to that request alone, at the place in the source of random numbers that the session
has come to; in particular no evaluation depends on the bindings of another. -/
theorem cache_transparent (settings : Settings) (capacity : Nat) (source : Nat → Float) :
    let plain : Calculator := { settings }
    let cached : Session := { calculator := plain.withCache capacity }
    (∀ requests : List Request,
      cached.answers source requests = (Session.mk plain 0).answers source requests) ∧
    ∀ (before : List Request) (request : Request),
      cached.answers source (before ++ [request]) =
        cached.answers source before ++
          [((Session.mk plain (cached.after source before).drawn).answer source request).1] := by
  intro plain cached
  have hplain : plain.Faithful := Calculator.faithful_of_cache_eq_none rfl
  have halike : Session.Alike cached (Session.mk plain 0) :=
    ⟨rfl, rfl, plain.faithful_withCache capacity, hplain⟩
  refine ⟨halike.answers source, ?_⟩
  intro before request
  have hafter := halike.after source before
  obtain ⟨n, hn⟩ := Session.after_eq_of_uncached source settings 0 before
  rw [Session.answers_append]
  rw [hn] at hafter
  obtain ⟨hresponse, -⟩ := hafter.answer source request
  rw [hafter.drawn]
  simp only [Session.answers]
  rw [hresponse]

end Reckoner
