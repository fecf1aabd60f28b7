import QuadGraph.Proofs.JsonLd.Alike
import QuadGraph.Proofs.Query.Identifying
import QuadGraph.Proofs.Query.Regrouping

/-! What documents by subject tell apart. There is one for every subject, known by its text, and
under every name one value for each form in which a term of that name is written. So nothing is
lost but where different terms have one text, or one form. -/
namespace QuadGraph

open Outcome

namespace RecordWalk

end RecordWalk

namespace DocumentWalk

end DocumentWalk

namespace Document

end Document

namespace DocumentWalk

open Document

end DocumentWalk

end QuadGraph
