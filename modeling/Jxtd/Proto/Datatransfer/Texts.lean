import Jxtd.Proto.Datatransfer.Codec
import Jxtd.Proto.Text

/-!
# The texts of a datatransfer message

Every text of the messages has the type `string`, the field `binary` of a source too, which holds
engines and the data of tasks.

* `request.texts`, `response.texts`: the strings of the messages.
* `Request.texts`, `Response.texts`: the texts of an object; **`allText_request`**,
  **`allText_response`**.
-/

namespace Jxtd.Datatransfer

open Lib Jxtd.Proto

/-! ## The strings of a message -/

/-- The strings of a pair. -/
def pairTexts (p : Str × Str) : List Str := [p.1, p.2]

def adtsrc.texts (a : adtsrc) : List Str :=
  a.engine.toList.flatMap pairTexts ++ a.endpoint.toList.flatMap pairTexts ++ a.binary.toList

def request.texts (r : request) : List Str :=
  [r.token, r.src, r.dest] ++ r.master.flatMap adtsrc.texts

def dtsrc.dep.texts (d : dtsrc.dep) : List Str :=
  d.endpoint.toList.flatMap adtsrc.texts ++ d.relative.toList

def dtsrc.texts (d : dtsrc) : List Str :=
  d.master.toList.flatMap adtsrc.texts ++ d.deps.flatMap dtsrc.dep.texts

def response.texts (r : response) : List Str :=
  [r.token, r.src, r.dest] ++ r.master.flatMap dtsrc.texts

/-! ## The texts of an object -/

def Adtsrc.texts (a : Adtsrc) : List Str :=
  pairTexts a.engineattr ++ pairTexts a.endpointattr ++ [a.binary]

def Request.texts (r : Request) : List Str :=
  [r.token, r.src, r.dest] ++ r.adtsrcs.flatMap Adtsrc.texts

def Dtsrc.texts (d : Dtsrc) : List Str :=
  d.master.texts ++ d.deps.flatMap fun dep => dep.1.texts ++ [dep.2]

def Response.texts (r : Response) : List Str :=
  [r.token, r.src, r.dest] ++ r.dtsrcs.flatMap Dtsrc.texts

/-- A pair that is not written is empty. -/
theorem allText_bothOrNone {p : Str × Str} (h : Paired p) :
    AllText ((bothOrNone p).toList.flatMap pairTexts) ↔ AllText (pairTexts p) := by
  unfold bothOrNone
  split_ifs with hp
  · simp
  · have hnil : p.1 = [] ∧ p.2 = [] := by
      unfold Paired at h
      tauto
    simp [pairTexts, hnil.1, hnil.2, isText_nil]

theorem allText_adtsrc {a : Adtsrc} (h : a.Paired) :
    AllText (assignadtsrc a).texts ↔ AllText a.texts := by
  simp only [adtsrc.texts, assignadtsrc, Adtsrc.texts, allText_append, allText_bothOrNone h.1,
    allText_bothOrNone h.2, allText_ite, allText_cons, allText_nil, and_true]

/-- **The strings of a request** are its texts. -/
theorem allText_request {r : Request} (h : ∀ a ∈ r.adtsrcs, a.Paired) :
    AllText r.encode.texts ↔ AllText r.texts := by
  have hmaster : AllText ((r.adtsrcs.map assignadtsrc).flatMap adtsrc.texts) ↔
      AllText (r.adtsrcs.flatMap Adtsrc.texts) :=
    allText_flatMap_map fun a ha => allText_adtsrc (h a ha)
  simp only [request.texts, Request.encode, Request.texts, allText_append, hmaster]

theorem allText_dtsrc {d : Dtsrc} (h : d.Paired) :
    AllText (assigndtsrc d).texts ↔ AllText d.texts := by
  have hdep (dep : Adtsrc × Str) (hd : dep.1.Paired) :
      AllText (assigndep dep).texts ↔ AllText (dep.1.texts ++ [dep.2]) := by
    simp only [dtsrc.dep.texts, assigndep, Option.toList_some, List.flatMap_singleton,
      allText_append, allText_adtsrc hd, allText_ite, allText_cons, allText_nil, and_true]
  have hdeps : AllText ((d.deps.map assigndep).flatMap dtsrc.dep.texts) ↔
      AllText (d.deps.flatMap fun dep => dep.1.texts ++ [dep.2]) :=
    allText_flatMap_map fun dep hmem => hdep dep (h.2 dep hmem)
  simp only [dtsrc.texts, assigndtsrc, Dtsrc.texts, Option.toList_some, List.flatMap_singleton,
    allText_append, allText_adtsrc h.1, hdeps]

/-- **The strings of a response** are its texts. -/
theorem allText_response {r : Response} (h : ∀ d ∈ r.dtsrcs, d.Paired) :
    AllText r.encode.texts ↔ AllText r.texts := by
  have hmaster : AllText ((r.dtsrcs.map assigndtsrc).flatMap dtsrc.texts) ↔
      AllText (r.dtsrcs.flatMap Dtsrc.texts) :=
    allText_flatMap_map fun d hd => allText_dtsrc (h d hd)
  simp only [response.texts, Response.encode, Response.texts, allText_append, hmaster]

end Jxtd.Datatransfer
