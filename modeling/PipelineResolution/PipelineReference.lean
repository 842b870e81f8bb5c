import PipelineResolution.Diagnostic.Basic
import PipelineResolution.Value.Basic

/-!
# References to pipelines

What runs a pipeline names it, by its name or by an object that has a name.
-/
namespace PipelineResolution

def Value.pipelineName? : Value → Option String
  | .string name => some name
  | v => v.get? "name" >>= Value.text?

def Diagnostic.invalidPipeline (location : Location) : Diagnostic :=
  (Diagnostic.validation "Invalid pipeline reference"
    "The pipeline attribute must be a pipeline or a pipeline name.").about location

end PipelineResolution
