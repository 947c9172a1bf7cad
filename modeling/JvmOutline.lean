import JvmOutline.Main
import JvmOutline.Assembly.Assembler
import JvmOutline.Proofs.Reading.Format
import JvmOutline.Proofs.Text.ModifiedUtf8
import JvmOutline.Proofs.Pool.Layout
import JvmOutline.Proofs.ClassFile.Layout
import JvmOutline.Proofs.ClassFile.RoundTrip
import JvmOutline.Proofs.Attribute.Decoding
import JvmOutline.Proofs.Assembly.Draft
import JvmOutline.Proofs.Assembly.Annotations
import JvmOutline.Proofs.Assembly.Attributes
import JvmOutline.Proofs.Assembly.ClassFile
import JvmOutline.Proofs.Outline.ParameterAnnots
import JvmOutline.Proofs.Outline.Parts
import JvmOutline.Proofs.Assembly.Outlining
import JvmOutline.Proofs.Assembly.RoundTrip
import JvmOutline.Proofs.Cache.Transparency
import JvmOutline.Proofs.Attribute.Constants
import JvmOutline.Proofs.ClassFile.Errors
import JvmOutline.Proofs.Outline.Declarations
import JvmOutline.Proofs.Outline.Success
import JvmOutline.Proofs.Outline.Invariants
import JvmOutline.Proofs.Outline.Errors
import JvmOutline.Proofs.Cache.Accounting
import JvmOutline.Proofs.ClassFile.Truncation
import JvmOutline.Proofs.Attribute.Framing
import JvmOutline.Proofs.Text.CodeUnits
import JvmOutline.Proofs.Outline.Rearrangement
import JvmOutline.Proofs.Outline.Erasure
import JvmOutline.Proofs.Attribute.Extension
import JvmOutline.Proofs.Outline.Renumbering
import JvmOutline.Proofs.Text.Malformed
import JvmOutline.Proofs.ClassFile.Indexes
import JvmOutline.Proofs.Outline.Precedence
import JvmOutline.Proofs.Outline.Merging
import JvmOutline.Proofs.ClassFile.Accessors
import JvmOutline.Proofs.Outline.ValueShape
import JvmOutline.Proofs.Assembly.Values
import JvmOutline.Proofs.Outline.Positions
import JvmOutline.Proofs.Outline.NestedClasses
import JvmOutline.Proofs.Outline.Equality
import JvmOutline.Proofs.Outline.LogRecords
import JvmOutline.Proofs.Attribute.Descent
import JvmOutline.Proofs.Source.Directory
import JvmOutline.Proofs.Outline.FieldConstants
import JvmOutline.Proofs.Pool.Slots
import JvmOutline.Proofs.Text.UnitLoop
import JvmOutline.Proofs.Assembly.Table
