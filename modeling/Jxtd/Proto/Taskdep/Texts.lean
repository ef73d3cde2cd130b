import Jxtd.Proto.Taskdep.Codec
import Jxtd.Proto.Text

/-!
# The texts of a taskdep message

Every text of the messages has the type `string`, the field `binary` of an engine too.

* `REQUEST.texts`, `RESPONSE.texts`: the strings of the messages.
* `Request.texts`, `Response.texts`: the texts of an object; **`allText_request`**,
  **`allText_response`**.
-/

namespace Jxtd.Taskdep

open Lib Jxtd.Proto

/-! ## The strings of a message -/

def ENDPOINT.AUTHSTRING.texts (a : ENDPOINT.AUTHSTRING) : List Str :=
  [a.token] ++ (a.uppair.toList.flatMap fun p => [p.1, p.2]) ++
    a.pki.toList.flatMap fun p => [p.1, p.2]

def ENDPOINT.texts (e : ENDPOINT) : List Str :=
  [e.proto, e.url, e.path] ++
    e.attr.toList.flatMap fun attr => attr.authstring.flatMap ENDPOINT.AUTHSTRING.texts

def REQUEST.ENGINE.EXTFILES.texts (x : REQUEST.ENGINE.EXTFILES) : List Str :=
  x.storage.toList.flatMap ENDPOINT.texts ++ [x.path]

mutual

def REQUEST.ENGINE.texts : REQUEST.ENGINE → List Str
  | ⟨binary, id, name, deps, extfiles⟩ =>
    binary.toList ++ id.toList ++ name.toList ++ enginesTexts deps ++
      extfiles.flatMap REQUEST.ENGINE.EXTFILES.texts

def enginesTexts : List REQUEST.ENGINE → List Str
  | [] => []
  | engine :: engines => engine.texts ++ enginesTexts engines

end

def OBJECT.texts (o : OBJECT) : List Str :=
  o.management.toList.flatMap ENDPOINT.texts ++ o.cluster.toList.flatMap ENDPOINT.texts ++
    o.storage.toList.flatMap ENDPOINT.texts

def REQUEST.DATASOURCE.texts (d : REQUEST.DATASOURCE) : List Str :=
  (d.src.toList.flatMap fun src => [src.1, src.2]) ++ d.dest.toList.map fun dest => dest.1

def REQUEST.texts (r : REQUEST) : List Str :=
  [r.token] ++ r.datasource.toList.flatMap REQUEST.DATASOURCE.texts ++
    r.engine.toList.flatMap REQUEST.ENGINE.texts ++ r.object.toList.flatMap OBJECT.texts

def RESPONSE.texts (r : RESPONSE) : List Str :=
  [r.token] ++ (r.neogiate.toList.flatMap fun n => n.errstr.toList) ++
    (r.deploy.toList.flatMap fun d => d.errstr.toList) ++ r.object.toList.flatMap OBJECT.texts

/-! ## The texts of an object -/

def Authstring.texts (a : Authstring) : List Str :=
  [a.token, a.uppair.1, a.uppair.2, a.pki.1, a.pki.2]

def Endpoint.texts (e : Endpoint) : List Str :=
  [e.proto, e.url, e.path] ++ e.authstring.flatMap Authstring.texts

def Extfile.texts (x : Extfile) : List Str := x.storage.texts ++ [x.path]

mutual

/-- The texts of an engine and of the engines it depends on. -/
def Engine.texts : Engine → List Str
  | ⟨binary, id, name, deps, extfiles⟩ =>
    [binary, id, name] ++ depsTexts deps ++ extfiles.flatMap Extfile.texts

def depsTexts : List Engine → List Str
  | [] => []
  | engine :: engines => engine.texts ++ depsTexts engines

end

def Object.texts (o : Object) : List Str :=
  o.management.toList.flatMap Endpoint.texts ++ o.cluster.toList.flatMap Endpoint.texts ++
    o.storage.toList.flatMap Endpoint.texts

def Datasource.texts (d : Datasource) : List Str := [d.src.input, d.src.type, d.dest.output]

def Request.texts (r : Request) : List Str :=
  [r.token] ++ r.datasource.toList.flatMap Datasource.texts ++
    r.engine.toList.flatMap Engine.texts ++ r.object.texts

def Response.texts (r : Response) : List Str :=
  [r.token] ++ (r.neogiate.toList.map fun n => n.errstr) ++
    (r.deploy.toList.map fun d => d.errstr) ++ r.object.texts

/-! ## What is written -/

theorem allText_unlessEmpty (s : Str) : AllText (unlessEmpty s).toList ↔ isText s = true := by
  unfold unlessEmpty
  split_ifs with hs
  · simp [hs, isText_nil]
  · simp

theorem texts_assignAuthstring (a : Authstring) : (assignAuthstring a).texts = a.texts := rfl

theorem texts_assignEndpoint (e : Endpoint) : (assignEndpoint e).texts = e.texts := by
  have hauth : (e.authstring.map assignAuthstring).flatMap ENDPOINT.AUTHSTRING.texts =
      e.authstring.flatMap Authstring.texts := by
    rw [List.flatMap_map]
    exact List.flatMap_congr fun a _ => texts_assignAuthstring a
  simp only [ENDPOINT.texts, assignEndpoint, Endpoint.texts, Option.toList_some,
    List.flatMap_singleton, hauth]

theorem texts_assignExtfile (x : Extfile) : (assignExtfile x).texts = x.texts := by
  simp only [REQUEST.ENGINE.EXTFILES.texts, assignExtfile, Extfile.texts, Option.toList_some,
    List.flatMap_singleton, texts_assignEndpoint]

mutual

/-- An engine, with its dependencies at every depth. -/
theorem allText_assignEngine : ∀ e : Engine, AllText (assignEngine e).texts ↔ AllText e.texts
  | ⟨binary, id, name, deps, extfiles⟩ => by
    have hext : (extfiles.map assignExtfile).flatMap REQUEST.ENGINE.EXTFILES.texts =
        extfiles.flatMap Extfile.texts := by
      rw [List.flatMap_map]
      exact List.flatMap_congr fun x _ => texts_assignExtfile x
    simp only [assignEngine, REQUEST.ENGINE.texts, Engine.texts, allText_append, allText_cons,
      allText_nil, allText_unlessEmpty, allText_assignEngines deps, hext, and_true, and_assoc]

theorem allText_assignEngines :
    ∀ es : List Engine, AllText (enginesTexts (assignEngines es)) ↔ AllText (depsTexts es)
  | [] => Iff.rfl
  | e :: es => by
    rw [assignEngines, enginesTexts, depsTexts, allText_append, allText_append,
      allText_assignEngine e, allText_assignEngines es]

end

theorem texts_encode_object (o : Object) : o.encode.texts = o.texts := by
  have hmember (e : Option Endpoint) :
      (e.map assignEndpoint).toList.flatMap ENDPOINT.texts = e.toList.flatMap Endpoint.texts := by
    cases e with
    | none => rfl
    | some e => simp only [Option.map_some, Option.toList_some, List.flatMap_singleton,
        texts_assignEndpoint]
  simp only [OBJECT.texts, Object.encode, Object.texts, hmember]

/-- **The strings of a request** are its texts. -/
theorem allText_request (r : Request) : AllText r.encode.texts ↔ AllText r.texts := by
  have hdatasource : (r.datasource.map Datasource.encode).toList.flatMap REQUEST.DATASOURCE.texts =
      r.datasource.toList.flatMap Datasource.texts := by
    cases r.datasource <;> rfl
  have hengine : AllText (r.encode.engine.toList.flatMap REQUEST.ENGINE.texts) ↔
      AllText (r.engine.toList.flatMap Engine.texts) := by
    unfold Request.encode
    cases r.engine with
    | none => simp [REQUEST.ENGINE.texts, enginesTexts]
    | some engine =>
      simp only [Option.toList_some, List.flatMap_singleton]
      exact allText_assignEngine engine
  simp only [REQUEST.texts, Request.texts, allText_append, hengine]
  simp only [Request.encode, hdatasource, Option.toList_some, List.flatMap_singleton,
    texts_encode_object]

/-- **The strings of a response** are its texts. -/
theorem allText_response (r : Response) : AllText r.encode.texts ↔ AllText r.texts := by
  have hneogiate : AllText (r.encode.neogiate.toList.flatMap fun n => n.errstr.toList) ↔
      AllText (r.neogiate.toList.map fun n => n.errstr) := by
    unfold Response.encode
    cases r.neogiate with
    | none => exact Iff.rfl
    | some n => simp [allText_unlessEmpty]
  have hdeploy : AllText (r.encode.deploy.toList.flatMap fun d => d.errstr.toList) ↔
      AllText (r.deploy.toList.map fun d => d.errstr) := by
    unfold Response.encode
    cases r.deploy with
    | none => exact Iff.rfl
    | some d => simp [allText_unlessEmpty]
  simp only [RESPONSE.texts, Response.texts, allText_append, hneogiate, hdeploy]
  simp only [Response.encode, Option.toList_some, List.flatMap_singleton, texts_encode_object]

end Jxtd.Taskdep
