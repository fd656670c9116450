import Docsage.Library.Program
import Docsage.Store.Tables
import Docsage.Text.Whitespace
import Docsage.Text.Utf16

/-! # Embedding providers of the two backends

`get_provider` refuses a provider whose key is missing; `Resolve` falls back to
the demo provider. The remote services themselves are parameters: what they
answer is a function of the call, and each call may fail.
-/

namespace Docsage
open Effects Text

/-- The part of `Settings` that selects providers. -/
structure Settings where
  demoMode : Bool := true
  geminiApiKey : String := ""
  openaiApiKey : String := ""
  geminiEmbeddingModel : String := "gemini-embedding-2"
  openaiEmbeddingModel : String := "text-embedding-3-small"

def Settings.geminiEnabled (s : Settings) : Bool := !s.demoMode && !s.geminiApiKey.isEmpty

def Settings.openaiEnabled (s : Settings) : Bool := !s.demoMode && !s.openaiApiKey.isEmpty

def providerAvailable (name : ProviderName) (settings : Settings) : Bool :=
  match name with
  | .demo => true
  | .gemini => settings.geminiEnabled
  | .openai => settings.openaiEnabled

/-- The SDKs behind the FastAPI providers, and the demo hash. Calls of one run are numbered, so
that two calls with the same input may end differently. -/
structure EmbeddingService where
  construct : ProviderName → Except Exc Unit
  demoVector : String → List ℚ
  embedTexts : ProviderName → ℕ → List String → Except Exc (List (List ℚ))
  embedImage : ℕ → List UInt8 → String → Except Exc (List ℚ)

/-- Demo mode: no remote service answers, and the demo hash is constant. -/
def offlineService : EmbeddingService where
  construct _ := .ok ()
  demoVector _ := [1]
  embedTexts _ _ _ := .error { message := "no key" }
  embedImage _ _ _ := .error { message := "no key" }

/-- A vector space: documents, queries, and (optionally) images embed into it. -/
structure EmbeddingProvider where
  name : ProviderName
  modelId : String
  embedDocuments : ℕ → List String → String → Except Exc (List Vector)
  embedQuery : String → Except Exc Vector
  embedImage : ℕ → List UInt8 → String → Except Exc (Option Vector)

def demoEmbeddingProvider (service : EmbeddingService) : EmbeddingProvider where
  name := .demo
  modelId := "demo-v1"
  embedDocuments _ texts _ := .ok (texts.map fun t => ⟨.demo, service.demoVector t⟩)
  embedQuery text := .ok ⟨.demo, service.demoVector text⟩
  embedImage _ _ _ := .ok none

def firstVector (name : ProviderName) : List (List ℚ) → Except Exc Vector
  | [] => .error { message := "list index out of range" }
  | v :: _ => .ok ⟨name, v⟩

def geminiEmbeddingProvider (settings : Settings) (service : EmbeddingService) :
    EmbeddingProvider where
  name := .gemini
  modelId := settings.geminiEmbeddingModel
  embedDocuments call texts title := do
    let vectors ← service.embedTexts .gemini call
      (texts.map fun t => "title: " ++ title ++ " | text: " ++ t)
    return vectors.map fun v => ⟨.gemini, v⟩
  embedQuery text := do
    firstVector .gemini (← service.embedTexts .gemini 0 ["task: search result | query: " ++ text])
  embedImage call data mime := do
    return some ⟨.gemini, ← service.embedImage call data mime⟩

def openAIEmbeddingProvider (settings : Settings) (service : EmbeddingService) :
    EmbeddingProvider where
  name := .openai
  modelId := settings.openaiEmbeddingModel
  embedDocuments call texts _ := do
    let vectors ← service.embedTexts .openai call (texts.map (replaceChar '\n' ' '))
    return vectors.map fun v => ⟨.openai, v⟩
  embedQuery text := do
    firstVector .openai (← service.embedTexts .openai 0 [replaceChar '\n' ' ' text])
  embedImage _ _ _ := .ok none

def unavailable (name key : String) : Exc where
  isValueError := true
  message := "embedding provider '" ++ name ++ "' is unavailable: no " ++ key ++
    " is configured (or demo mode is on). Set " ++ key ++
    " and DOCSAGE_DEMO_MODE=false, or upload with provider='demo'."

/-- `get_provider`: the key check raises a ValueError, the SDK constructor anything. -/
def getProvider (name : ProviderName) (settings : Settings) (service : EmbeddingService) :
    Except Exc EmbeddingProvider :=
  match name with
  | .demo => .ok (demoEmbeddingProvider service)
  | .gemini =>
    if settings.geminiEnabled then do
      service.construct .gemini
      return geminiEmbeddingProvider settings service
    else .error (unavailable "gemini" "GEMINI_API_KEY")
  | .openai =>
    if settings.openaiEnabled then do
      service.construct .openai
      return openAIEmbeddingProvider settings service
    else .error (unavailable "openai" "OPENAI_API_KEY")

namespace DotNet

structure DocsageOptions where
  geminiApiKey : Option String := none
  openAiApiKey : Option String := none
  geminiEmbeddingModel : String := "gemini-embedding-2"
  openAiEmbeddingModel : String := "text-embedding-3-small"

def DocsageOptions.geminiConfigured (o : DocsageOptions) : Bool :=
  !isNullOrWhiteSpace o.geminiApiKey

def DocsageOptions.openAiConfigured (o : DocsageOptions) : Bool :=
  !isNullOrWhiteSpace o.openAiApiKey

/-- The key that the named implementation needs is configured. -/
def DocsageOptions.configured (o : DocsageOptions) : ProviderName → Bool
  | .demo => true
  | .gemini => o.geminiConfigured
  | .openai => o.openAiConfigured

/-- The implementation that `Resolve` picks for a requested provider. -/
def DocsageOptions.implementation (o : DocsageOptions) (requested : ProviderName) : ProviderName :=
  if o.configured requested then requested else .demo

/-- The HTTP services behind the .NET providers, and the demo hash. -/
structure EmbeddingService where
  demoVector : Utf16 → List ℚ
  embedTexts : ProviderName → List Utf16 → Except Exc (List (List ℚ))
  embedQuery : ProviderName → Utf16 → Except Exc (List ℚ)

structure EmbeddingProvider where
  name : ProviderName
  modelId : String
  embedDocuments : List Utf16 → Except Exc (List Vector)
  embedQuery : Utf16 → Except Exc Vector

def demoEmbeddingProvider (service : EmbeddingService) : EmbeddingProvider where
  name := .demo
  modelId := "demo-v1"
  embedDocuments texts := .ok (texts.map fun t => ⟨.demo, service.demoVector t⟩)
  embedQuery text := .ok ⟨.demo, service.demoVector text⟩

/-- The two HTTP providers differ in their name, their model and the request they post. -/
def httpEmbeddingProvider (name : ProviderName) (modelId : String) (service : EmbeddingService) :
    EmbeddingProvider where
  name := name
  modelId := modelId
  embedDocuments texts := do
    let vectors ← service.embedTexts name texts
    return vectors.map fun v => ⟨name, v⟩
  embedQuery text := do return ⟨name, ← service.embedQuery name text⟩

def geminiEmbeddingProvider (options : DocsageOptions) (service : EmbeddingService) :=
  httpEmbeddingProvider .gemini options.geminiEmbeddingModel service

def openAiEmbeddingProvider (options : DocsageOptions) (service : EmbeddingService) :=
  httpEmbeddingProvider .openai options.openAiEmbeddingModel service

def resolve (options : DocsageOptions) (service : EmbeddingService) (requested : ProviderName) :
    EmbeddingProvider :=
  match requested with
  | .gemini =>
    if options.geminiConfigured then geminiEmbeddingProvider options service
    else demoEmbeddingProvider service
  | .openai =>
    if options.openAiConfigured then openAiEmbeddingProvider options service
    else demoEmbeddingProvider service
  | .demo => demoEmbeddingProvider service

end DotNet

/-- Everything the provider embeds lies in the space of the given implementation. -/
structure EmbeddingProvider.EmbedsIn (p : EmbeddingProvider) (space : ProviderName) : Prop where
  documents : ∀ {call texts title vs}, p.embedDocuments call texts title = .ok vs →
    ∀ v ∈ vs, v.implementation = space
  query : ∀ {text v}, p.embedQuery text = .ok v → v.implementation = space
  image : ∀ {call data mime v}, p.embedImage call data mime = .ok (some v) →
    v.implementation = space

theorem firstVector_ok {name : ProviderName} {vs : List (List ℚ)} {v : Vector}
    (h : firstVector name vs = .ok v) : v.implementation = name := by
  cases vs with
  | nil => cases h
  | cons c cs => obtain rfl := Except.ok.inj h; rfl

theorem map_tag_ok {name : ProviderName} {r : Except Exc (List (List ℚ))} {vs : List Vector}
    (h : (do let cs ← r; return cs.map fun c => (⟨name, c⟩ : Vector)) = .ok vs) :
    ∀ v ∈ vs, v.implementation = name := by
  obtain ⟨cs, -, h⟩ := bind_ok h
  obtain rfl := Except.ok.inj h
  simp

theorem demoEmbeddingProvider_embedsIn (service : EmbeddingService) :
    (demoEmbeddingProvider service).EmbedsIn .demo where
  documents h := by obtain rfl := Except.ok.inj h; simp
  query h := by obtain rfl := Except.ok.inj h; rfl
  image h := by cases h

theorem geminiEmbeddingProvider_embedsIn (settings : Settings) (service : EmbeddingService) :
    (geminiEmbeddingProvider settings service).EmbedsIn .gemini where
  documents h := map_tag_ok h
  query h := by
    obtain ⟨cs, -, h⟩ := bind_ok h
    exact firstVector_ok h
  image h := by
    obtain ⟨c, -, h⟩ := bind_ok h
    obtain rfl := Option.some.inj (Except.ok.inj h)
    rfl

theorem openAIEmbeddingProvider_embedsIn (settings : Settings) (service : EmbeddingService) :
    (openAIEmbeddingProvider settings service).EmbedsIn .openai where
  documents h := map_tag_ok h
  query h := by
    obtain ⟨cs, -, h⟩ := bind_ok h
    exact firstVector_ok h
  image h := by cases h

/-- The provider that `get_provider` hands out is the one with the name it was asked for. -/
theorem getProvider_cases {name : ProviderName} {settings : Settings} {service : EmbeddingService}
    {p : EmbeddingProvider} (h : getProvider name settings service = .ok p) :
    (name = .demo ∧ p = demoEmbeddingProvider service) ∨
    (name = .gemini ∧ p = geminiEmbeddingProvider settings service) ∨
    (name = .openai ∧ p = openAIEmbeddingProvider settings service) := by
  cases name with
  | demo => exact .inl ⟨rfl, (Except.ok.inj h).symm⟩
  | gemini =>
    simp only [getProvider] at h
    split at h
    · obtain ⟨-, -, h⟩ := bind_ok h
      exact .inr (.inl ⟨rfl, (Except.ok.inj h).symm⟩)
    · cases h
  | openai =>
    simp only [getProvider] at h
    split at h
    · obtain ⟨-, -, h⟩ := bind_ok h
      exact .inr (.inr ⟨rfl, (Except.ok.inj h).symm⟩)
    · cases h

/-- A provider that `get_provider` hands out embeds into the space it was asked for. -/
theorem getProvider_embedsIn {name : ProviderName} {settings : Settings}
    {service : EmbeddingService} {p : EmbeddingProvider}
    (h : getProvider name settings service = .ok p) : p.EmbedsIn name := by
  obtain ⟨rfl, rfl⟩ | ⟨rfl, rfl⟩ | ⟨rfl, rfl⟩ := getProvider_cases h
  · exact demoEmbeddingProvider_embedsIn service
  · exact geminiEmbeddingProvider_embedsIn settings service
  · exact openAIEmbeddingProvider_embedsIn settings service

namespace DotNet

/-- Everything the provider embeds lies in the space of the given implementation. -/
structure EmbeddingProvider.EmbedsIn (p : EmbeddingProvider) (space : ProviderName) : Prop where
  documents : ∀ {texts vs}, p.embedDocuments texts = .ok vs → ∀ v ∈ vs, v.implementation = space
  query : ∀ {text v}, p.embedQuery text = .ok v → v.implementation = space

theorem demoEmbeddingProvider_embedsIn (service : EmbeddingService) :
    (demoEmbeddingProvider service).EmbedsIn .demo where
  documents h := by obtain rfl := Except.ok.inj h; simp
  query h := by obtain rfl := Except.ok.inj h; rfl

theorem httpEmbeddingProvider_embedsIn (name : ProviderName) (model : String)
    (service : EmbeddingService) : (httpEmbeddingProvider name model service).EmbedsIn name where
  documents h := map_tag_ok h
  query h := by
    obtain ⟨c, -, h⟩ := bind_ok h
    obtain rfl := Except.ok.inj h
    rfl

/-- The provider that `Resolve` picks is the one of the implementation it is known to pick. -/
theorem resolve_cases (options : DocsageOptions) (service : EmbeddingService)
    (requested : ProviderName) :
    (options.implementation requested = .demo ∧
      resolve options service requested = demoEmbeddingProvider service) ∨
    (options.implementation requested = .gemini ∧
      resolve options service requested = geminiEmbeddingProvider options service) ∨
    (options.implementation requested = .openai ∧
      resolve options service requested = openAiEmbeddingProvider options service) := by
  unfold DocsageOptions.implementation
  cases requested with
  | demo => exact .inl ⟨rfl, rfl⟩
  | gemini => by_cases h : options.geminiConfigured <;>
      simp [resolve, DocsageOptions.configured, h]
  | openai => by_cases h : options.openAiConfigured <;>
      simp [resolve, DocsageOptions.configured, h]

/-- The space a resolved provider embeds into: the requested one if its key is configured, and
the demo space otherwise. -/
theorem resolve_embedsIn (options : DocsageOptions) (service : EmbeddingService)
    (requested : ProviderName) :
    (resolve options service requested).EmbedsIn (options.implementation requested) := by
  obtain ⟨hname, hp⟩ | ⟨hname, hp⟩ | ⟨hname, hp⟩ := resolve_cases options service requested
  · rw [hname, hp]
    exact demoEmbeddingProvider_embedsIn service
  · rw [hname, hp]
    exact httpEmbeddingProvider_embedsIn .gemini options.geminiEmbeddingModel service
  · rw [hname, hp]
    exact httpEmbeddingProvider_embedsIn .openai options.openAiEmbeddingModel service

end DotNet
end Docsage
