import Mathlib.Data.List.Induction
import Reckoner.Proofs.Cache.Transparency

/-!
# What the cache holds

The cache of a calculator holds the texts that were read with success since it was last
reset. It is reset when it is cleared, and when a new text is read with success while it is
full: that text is then the first one after the reset.

A request is one of two things to the cache, the reading of a text or clearing. What a
reading does to it is said once (`Calculator.parse_cases`): nothing if the text is found or
refused, and an insertion otherwise. From there one request is followed through
(`Session.mem_cachedTexts_answer`), and then a series of requests, one more request at its
end at a time.
-/

set_option autoImplicit false

namespace Reckoner

namespace Cache

/-- The texts whose expressions are kept. -/
def texts (cache : Cache) : List String :=
  cache.entries.keys

/-- A text is kept once. -/
theorem nodup_texts (cache : Cache) : cache.texts.Nodup :=
  Std.HashMap.nodup_keys

/-- There are as many entries as texts. -/
theorem length_texts (cache : Cache) : cache.texts.length = cache.size :=
  Std.HashMap.length_keys

/-- A text is kept exactly if its expression is found. -/
theorem mem_texts_iff {cache : Cache} {text : String} :
    text ∈ cache.texts ↔ ∃ tree, cache.find? text = some tree := by
  rw [texts, Std.HashMap.mem_keys, ← Option.isSome_iff_exists, find?,
    Std.HashMap.isSome_getElem?_iff_mem]

/-- A new cache keeps nothing. -/
@[simp] theorem texts_ofCapacity (capacity : Nat) : (ofCapacity capacity).texts = [] := by
  simp [texts, ofCapacity]

/-- An emptied cache keeps nothing. -/
@[simp] theorem texts_clear (cache : Cache) : cache.clear.texts = [] := by
  simp [texts, clear]

/-- A full cache holds nothing but the text that was inserted last. -/
theorem mem_texts_insert {cache : Cache} {text other : String} {tree : Expr} :
    other ∈ (cache.insert text tree).texts ↔
      other = text ∨ (cache.isFull = false ∧ other ∈ cache.texts) := by
  rw [mem_texts_iff, mem_texts_iff, find?_insert]
  by_cases hsame : text = other
  · simp [hsame]
  · cases cache.isFull <;> simp [hsame, Ne.symm hsame]

end Cache

/-- No text fails with an error of an evaluation when it is read. -/
theorem Settings.parse_ne_evaluation_error (settings : Settings) (text : String)
    (error : EvalError) : settings.parse text ≠ .error (.evaluation error) := by
  unfold parse expression
  cases settings.tokens (scan text) with
  | error anomaly => simp
  | ok stream =>
    rw [mapError_ok, ok_bind]
    cases Expr.ofTokens settings.depthLimit stream <;> simp [pure, Except.pure]

namespace Calculator

variable {calculator : Calculator} {cache : Cache}

/-- The texts whose expressions are in the cache. -/
def cachedTexts (calculator : Calculator) : List String :=
  match calculator.cache with
  | some cache => cache.texts
  | none => []

/-- A text is cached once. -/
theorem nodup_cachedTexts (calculator : Calculator) : calculator.cachedTexts.Nodup := by
  unfold cachedTexts
  split
  case h_1 cache _ => exact cache.nodup_texts
  case h_2 => exact List.nodup_nil

/-- There are as many texts in the cache as are counted. -/
theorem length_cachedTexts (calculator : Calculator) :
    calculator.cachedTexts.length = calculator.cachedCount := by
  cases hcache : calculator.cache with
  | none => simp [cachedTexts, cachedCount, hcache]
  | some cache => simpa [cachedTexts, cachedCount, hcache] using cache.length_texts

/-- All that can come of reading a text with a cache: the text is found, it is new and
refused, or it is new and its expression is kept. -/
theorem parse_cases (hcache : calculator.cache = some cache) (text : String) :
    (∃ tree, text ∈ cache.texts ∧ (calculator.parse text).result = .ok tree ∧
      (calculator.parse text).calculator = calculator) ∨
    (∃ error, text ∉ cache.texts ∧ (calculator.parse text).result = .error error ∧
      (calculator.parse text).calculator = calculator) ∨
    (∃ tree, text ∉ cache.texts ∧ (calculator.parse text).result = .ok tree ∧
      (calculator.parse text).calculator =
        { calculator with cache := some (cache.insert text tree) }) := by
  cases hfound : cache.find? text with
  | some tree =>
    have hmem : text ∈ cache.texts := Cache.mem_texts_iff.mpr ⟨tree, hfound⟩
    refine .inl ⟨tree, hmem, ?_, ?_⟩ <;> simp [parse, hcache, hfound]
  | none =>
    have hnew : text ∉ cache.texts := by
      intro hmem
      obtain ⟨tree, htree⟩ := Cache.mem_texts_iff.mp hmem
      rw [hfound] at htree
      contradiction
    cases hread : (calculator.settings.report text).1 with
    | error error =>
      refine .inr (.inl ⟨error, hnew, ?_, ?_⟩) <;>
        simp [parse, hcache, hfound, parseUncached, hread]
    | ok tree =>
      refine .inr (.inr ⟨tree, hnew, ?_, ?_⟩) <;>
        simp [parse, hcache, hfound, parseUncached, hread]

/-- The calculator has a cache of the given capacity and no more in it than that. -/
def IsLimited (limit : Nat) (calculator : Calculator) : Prop :=
  ∃ cache, calculator.cache = some cache ∧ cache.capacity = limit ∧ cache.size ≤ limit

variable {limit : Nat}

/-- A new cache has room for as many texts as its capacity says, and for one at least. -/
theorem isLimited_withCache (calculator : Calculator) (capacity : Nat) :
    (calculator.withCache capacity).IsLimited (max capacity 1) := by
  refine ⟨.ofCapacity capacity, rfl, rfl, ?_⟩
  rw [← Cache.length_texts, Cache.texts_ofCapacity]
  exact Nat.zero_le _

/-- There are no more texts in the cache than it has room for. -/
theorem IsLimited.cachedCount_le (h : calculator.IsLimited limit) :
    calculator.cachedCount ≤ limit := by
  obtain ⟨cache, hcache, -, hsize⟩ := h
  simpa [cachedCount, hcache] using hsize

/-- An emptied cache has the room that it had. -/
theorem IsLimited.clearCache (h : calculator.IsLimited limit) :
    calculator.clearCache.IsLimited limit := by
  obtain ⟨cache, hcache, hcapacity, -⟩ := h
  refine ⟨cache.clear, ?_, hcapacity, ?_⟩
  · simp [Calculator.clearCache, hcache]
  · rw [← Cache.length_texts, Cache.texts_clear]
    exact Nat.zero_le _

/-- No reading puts more into the cache than it has room for. -/
theorem IsLimited.parse (h : calculator.IsLimited limit) (text : String) :
    (calculator.parse text).calculator.IsLimited limit := by
  obtain ⟨cache, hcache, rfl, hsize⟩ := h
  obtain ⟨tree, -, -, hsame⟩ | ⟨error, -, -, hsame⟩ | ⟨tree, -, -, hnext⟩ :=
    parse_cases hcache text
  · rw [hsame]
    exact ⟨cache, hcache, rfl, hsize⟩
  · rw [hsame]
    exact ⟨cache, hcache, rfl, hsize⟩
  · rw [hnext]
    refine ⟨cache.insert text tree, rfl, ?_, Cache.size_insert_le hsize text tree⟩
    unfold Cache.insert
    split <;> rfl

/-- A text that is found or refused leaves the calculator as it was. -/
theorem IsLimited.calculator_parse_eq (h : calculator.IsLimited limit) {text : String}
    (hkept : text ∈ calculator.cachedTexts ∨
      ∃ error, (calculator.parse text).result = .error error) :
    (calculator.parse text).calculator = calculator := by
  obtain ⟨cache, hcache, -, -⟩ := h
  obtain ⟨_, -, -, hsame⟩ | ⟨_, -, -, hsame⟩ | ⟨tree, hnew, hresult, -⟩ :=
    parse_cases hcache text
  · exact hsame
  · exact hsame
  · exfalso
    obtain hmem | ⟨error, herror⟩ := hkept
    · simp [cachedTexts, hcache, hnew] at hmem
    · rw [herror] at hresult
      contradiction

/-- The text is read with success. -/
def Reads (calculator : Calculator) (text : String) : Prop :=
  ∃ tree, (calculator.parse text).result = .ok tree

/-- The text is new and is read with success while a cache with room for `limit` texts is
full. -/
def Overflows (calculator : Calculator) (limit : Nat) (text : String) : Prop :=
  calculator.Reads text ∧ text ∉ calculator.cachedTexts ∧ calculator.cachedCount = limit

/-- After the cache is cleared, no text is in it. -/
@[simp] theorem cachedTexts_clearCache (calculator : Calculator) :
    calculator.clearCache.cachedTexts = [] := by
  cases hcache : calculator.cache <;> simp [cachedTexts, clearCache, hcache]

/-- Where a text is found or refused, nothing changes. -/
theorem mem_cachedTexts_of_kept {text other : String}
    (hkept : text ∈ calculator.cachedTexts ∨
      ∃ error, (calculator.parse text).result = .error error) :
    other ∈ calculator.cachedTexts ↔
      (text = other ∧ calculator.Reads other) ∨
        (¬calculator.Overflows limit text ∧ other ∈ calculator.cachedTexts) := by
  have hcached : calculator.Reads text → text ∈ calculator.cachedTexts := by
    rintro ⟨tree, htree⟩
    obtain hmem | ⟨error, herror⟩ := hkept
    · exact hmem
    · rw [herror] at htree
      contradiction
  have hstays : ¬calculator.Overflows limit text := by
    rintro ⟨hreads, hnew, -⟩
    exact hnew (hcached hreads)
  constructor
  · intro hother
    exact .inr ⟨hstays, hother⟩
  · rintro (⟨rfl, hreads⟩ | ⟨-, hother⟩)
    · exact hcached hreads
    · exact hother

/-- After a text is read, it is cached if it was read with success, and the texts that were
cached before are there unless the cache has overflowed. -/
theorem mem_cachedTexts_parse (h : calculator.IsLimited limit) {text other : String} :
    other ∈ (calculator.parse text).calculator.cachedTexts ↔
      (text = other ∧ calculator.Reads other) ∨
        (¬calculator.Overflows limit text ∧ other ∈ calculator.cachedTexts) := by
  obtain ⟨cache, hcache, rfl, hsize⟩ := h
  have htexts : calculator.cachedTexts = cache.texts := by
    simp [cachedTexts, hcache]
  have hcount : calculator.cachedCount = cache.size := by
    simp [cachedCount, hcache]
  -- the text is kept, or it cannot be read, or it is put in
  obtain ⟨tree, hmem, -, hsame⟩ | ⟨error, -, hresult, hsame⟩ | ⟨tree, hnew, hresult, hnext⟩ :=
    parse_cases hcache text
  · rw [hsame]
    exact mem_cachedTexts_of_kept (.inl (htexts ▸ hmem))
  · rw [hsame]
    exact mem_cachedTexts_of_kept (.inr ⟨error, hresult⟩)
  · have hreads : calculator.Reads text := ⟨tree, hresult⟩
    have hfull : calculator.Overflows cache.capacity text ↔ cache.isFull = true := by
      simp only [Overflows, htexts, hcount, hreads, hnew, not_false_eq_true, true_and,
        Cache.isFull, decide_eq_true_eq]
      omega
    have hinsert : (calculator.parse text).calculator.cachedTexts =
        (cache.insert text tree).texts := by
      rw [hnext]
      rfl
    rw [hinsert, Cache.mem_texts_insert, htexts, hfull, Bool.not_eq_true]
    refine or_congr_left ⟨?_, ?_⟩
    · rintro rfl
      exact ⟨rfl, hreads⟩
    · rintro ⟨rfl, -⟩
      rfl

end Calculator

namespace Session

variable {session : Session} {limit : Nat} {requests : List Request} {text : String}
variable (source : Nat → Float)

/-- For the request the text is read with success. -/
def Reads (session : Session) (request : Request) (text : String) : Prop :=
  request.text? = some text ∧ session.calculator.Reads text

/-- The request resets a cache with room for `limit` texts: it clears the cache, or it makes
it overflow. -/
def Resets (session : Session) (limit : Nat) (request : Request) : Prop :=
  request = .clearCache ∨
    ∃ text, request.text? = some text ∧ session.calculator.Overflows limit text

/-- For one of the requests the text is read with success, and none behind that one resets
the cache. -/
def ReadSinceReset (session : Session) (limit : Nat) (requests : List Request)
    (text : String) : Prop :=
  ∃ before request later, requests = before ++ request :: later ∧
    (session.after source before).Reads request text ∧
    ∀ between reset behind, later = between ++ reset :: behind →
      ¬(session.after source (before ++ request :: between)).Resets limit reset

/-- No request puts more into the cache than it has room for. -/
theorem isLimited_answer (h : session.calculator.IsLimited limit) (request : Request) :
    (session.answer source request).2.calculator.IsLimited limit := by
  rw [answer_calculator]
  cases request.text? with
  | none => exact h.clearCache
  | some text => exact h.parse text

/-- No series of requests puts more into the cache than it has room for. -/
theorem isLimited_after (h : session.calculator.IsLimited limit) (requests : List Request) :
    (session.after source requests).calculator.IsLimited limit := by
  induction requests generalizing session with
  | nil => exact h
  | cons request requests ih => exact ih (isLimited_answer source h request)

/-- One request: what is read for it is cached, and what was cached before stays unless
the request resets the cache. -/
theorem mem_cachedTexts_answer (h : session.calculator.IsLimited limit) (request : Request)
    (text : String) :
    text ∈ (session.answer source request).2.calculator.cachedTexts ↔
      session.Reads request text ∨
        (¬session.Resets limit request ∧ text ∈ session.calculator.cachedTexts) := by
  rw [answer_calculator]
  cases request with
  | clearCache => simp [Request.text?, Reads, Resets]
  | _ => simp [Request.text?, Reads, Resets, Calculator.mem_cachedTexts_parse h]

/-- One request more: a text is read since the last reset if it is read for this request,
or if it was before and the request does not reset the cache. -/
theorem readSinceReset_append {request : Request} :
    session.ReadSinceReset source limit (requests ++ [request]) text ↔
      (session.after source requests).Reads request text ∨
        (¬(session.after source requests).Resets limit request ∧
          session.ReadSinceReset source limit requests text) := by
  constructor
  · rintro ⟨before, first, later, heq, hreads, hkept⟩
    -- the last request is the reading itself, or comes after it
    cases later using List.reverseRecOn with
    | nil =>
      obtain ⟨rfl, rfl⟩ := List.append_singleton_inj.mp heq
      exact .inl hreads
    | append_singleton later last _ =>
      rw [← List.cons_append, ← List.append_assoc] at heq
      obtain ⟨rfl, rfl⟩ := List.append_singleton_inj.mp heq
      refine .inr ⟨hkept later request [] rfl, before, first, later, rfl, hreads, ?_⟩
      rintro between reset behind rfl
      exact hkept between reset (behind ++ [request]) (by simp)
  · rintro (hreads | ⟨hstays, before, first, later, rfl, hreads, hkept⟩)
    · exact ⟨requests, request, [], rfl, hreads, by simp⟩
    · refine ⟨before, first, later ++ [request], by simp, hreads, ?_⟩
      intro between reset behind heq
      cases behind using List.reverseRecOn with
      | nil =>
        obtain ⟨rfl, rfl⟩ := List.append_singleton_inj.mp heq
        exact hstays
      | append_singleton behind last _ =>
        rw [← List.cons_append, ← List.append_assoc] at heq
        obtain ⟨rfl, -⟩ := List.append_singleton_inj.mp heq
        exact hkept between reset behind rfl

/-- Before the first request nothing has been read. -/
theorem not_readSinceReset_nil : ¬session.ReadSinceReset source limit [] text := by
  rintro ⟨before, request, later, heq, -⟩
  simp at heq

/-- A cache that was empty holds what was read since the last reset. -/
theorem mem_cachedTexts_after (h : session.calculator.IsLimited limit)
    (hempty : session.calculator.cachedTexts = []) (requests : List Request) :
    text ∈ (session.after source requests).calculator.cachedTexts ↔
      session.ReadSinceReset source limit requests text := by
  induction requests using List.reverseRecOn generalizing text with
  | nil => simp [after, hempty, not_readSinceReset_nil]
  | append_singleton requests request ih =>
    have hlimited := isLimited_after source h requests
    rw [after_append, readSinceReset_append, ← ih,
      ← mem_cachedTexts_answer source hlimited request text]
    rfl

/-- The text of an evaluation that fails with an error of the evaluation was read with
success. -/
theorem reads_of_evaluation_error (h : session.calculator.Faithful) {bindings : Bindings}
    {error : EvalError} {trace : Trace}
    (herror : (session.answer source (.evaluate text bindings)).1 =
      .value (.error (.evaluation error)) trace) :
    session.calculator.Reads text := by
  cases hread : (session.calculator.parse text).result with
  | ok tree => exact ⟨tree, hread⟩
  | error cause =>
    obtain ⟨hresult, -, -⟩ := h.parse text
    simp only [answer, Calculator.evaluate, hread, Response.value.injEq, Except.error.injEq]
      at herror
    rw [hread, herror.1] at hresult
    exact absurd hresult.symm (Settings.parse_ne_evaluation_error _ text error)

end Session

/-- **What the cache holds.** After any series of requests to a calculator with a new cache,
whatever its settings and the capacity, the texts in the cache are the ones that were read
with success since it was last reset, each counted once, and never more than the capacity
or one. From there the text of any request is cached after it if it is read with success,
also if its evaluation fails then. A request whose text is cached already leaves the
calculator as it was, and so does one whose text is refused, even if the cache is full. -/
theorem cache_contents (settings : Settings) (capacity : Nat) (source : Nat → Float)
    (requests : List Request) :
    let limit := max capacity 1
    let new : Session := { calculator := ({ settings } : Calculator).withCache capacity }
    let session := new.after source requests
    let calculator := session.calculator
    (∀ text, text ∈ calculator.cachedTexts ↔ new.ReadSinceReset source limit requests text) ∧
    calculator.cachedTexts.Nodup ∧
    calculator.cachedTexts.length = calculator.cachedCount ∧
    calculator.cachedCount ≤ limit ∧
    (∀ request text, request.text? = some text →
      let next := (session.answer source request).2.calculator
      ((∃ tree, (calculator.parse text).result = .ok tree) → text ∈ next.cachedTexts) ∧
      (text ∈ calculator.cachedTexts → next = calculator) ∧
      ((∃ error, (calculator.parse text).result = .error error) → next = calculator)) ∧
    ∀ text bindings error trace,
      (session.answer source (.evaluate text bindings)).1 =
        .value (.error (.evaluation error)) trace →
      text ∈ (session.answer source (.evaluate text bindings)).2.calculator.cachedTexts := by
  intro limit new session calculator
  have hnew : new.calculator.IsLimited limit := Calculator.isLimited_withCache _ capacity
  have hempty : new.calculator.cachedTexts = [] := Cache.texts_ofCapacity capacity
  have hlimited : calculator.IsLimited limit := Session.isLimited_after source hnew requests
  have hnewFaithful : new.calculator.Faithful := Calculator.faithful_withCache _ capacity
  refine ⟨fun text => Session.mem_cachedTexts_after source hnew hempty requests,
    calculator.nodup_cachedTexts, calculator.length_cachedTexts, hlimited.cachedCount_le, ?_, ?_⟩
  · intro request text hrequest next
    have hnext : next = (calculator.parse text).calculator := by
      simp only [next, Session.answer_calculator, hrequest]
      rfl
    rw [hnext]
    refine ⟨?_, fun hmem => hlimited.calculator_parse_eq (.inl hmem),
      fun herror => hlimited.calculator_parse_eq (.inr herror)⟩
    intro hreads
    exact (Calculator.mem_cachedTexts_parse hlimited).mpr (.inl ⟨rfl, hreads⟩)
  · intro text bindings error trace herror
    have hfaithful := (Session.faithful_after source hnewFaithful requests).2
    have hreads := Session.reads_of_evaluation_error source hfaithful herror
    exact (Session.mem_cachedTexts_answer source hlimited _ text).mpr (.inl ⟨rfl, hreads⟩)

/-- With a capacity of zero there is room for one text: `y` displaces `x`, although it is
not bound and its evaluation fails. -/
theorem cache_contents_zero_capacity :
    let new : Session := { calculator := ({} : Calculator).withCache 0 }
    let session := new.after (Random.uniform 0) [.parse "x"]
    let asked := session.answer (Random.uniform 0) (.evaluate "y" .empty)
    asked.1 = .value (.error (.evaluation (.unknownVariable "y"))) { reads := #["y"] } ∧
      asked.2.calculator.cachedTexts = ["y"] := by
  intro new session asked
  have hread : (session.calculator.parse "y").result = .ok (.var "y") := by
    obtain ⟨-, hsettings, hfaithful⟩ := (Calculator.faithful_withCache {} 0).parse "x"
    obtain ⟨hresult, -, -⟩ := hfaithful.parse "y"
    have hy : ({} : Settings).parse "y" = .ok (.var "y") := by decide +kernel
    rw [hsettings] at hresult
    exact hresult.trans hy
  have hasked : asked.1 =
      .value (.error (.evaluation (.unknownVariable "y"))) { reads := #["y"] } := by
    simp only [asked, Session.answer, Calculator.evaluate, hread]
    rfl
  refine ⟨hasked, ?_⟩
  obtain ⟨-, -, -, -, -, hinserted⟩ := cache_contents {} 0 (Random.uniform 0) [.parse "x"]
  obtain ⟨-, -, hlength, hle, -⟩ :=
    cache_contents {} 0 (Random.uniform 0) [.parse "x", .evaluate "y" .empty]
  have hmem : "y" ∈ asked.2.calculator.cachedTexts := hinserted _ _ _ _ hasked
  have hone : asked.2.calculator.cachedTexts.length ≤ 1 := hlength ▸ hle
  obtain ⟨text, htext⟩ := List.length_eq_one_iff.mp
    (Nat.le_antisymm hone (List.length_pos_of_mem hmem))
  rw [htext, List.mem_singleton] at hmem
  rw [htext, hmem]

end Reckoner
