import FeatureLines.Bundled.Language

/-!
# Bundled languages from ta to zh-TW
-/

namespace FeatureLines

def bundledTToZ : List BundledLanguage := [
  { code := "ta"
    name := "Tamil"
    native := "தமிழ்"
    feature := ["அம்சம்", "வணிக தேவை", "திறன்"]
    background := ["பின்னணி"]
    rule := ["Rule"]
    scenario := ["உதாரணமாக", "காட்சி"]
    scenarioOutline := ["காட்சி சுருக்கம்", "காட்சி வார்ப்புரு"]
    examples := ["எடுத்துக்காட்டுகள்", "காட்சிகள்", "நிலைமைகளில்"]
    givenStep := ["* ", "கொடுக்கப்பட்ட "]
    whenStep := ["* ", "எப்போது "]
    thenStep := ["* ", "அப்பொழுது "]
    andStep := ["* ", "மேலும்  ", "மற்றும் "]
    butStep := ["* ", "ஆனால்  "] },
  { code := "te"
    name := "Telugu"
    native := "తెలుగు"
    feature := ["గుణము"]
    background := ["నేపథ్యం"]
    rule := ["Rule"]
    scenario := ["ఉదాహరణ", "సన్నివేశం"]
    scenarioOutline := ["కథనం"]
    examples := ["ఉదాహరణలు"]
    givenStep := ["* ", "చెప్పబడినది "]
    whenStep := ["* ", "ఈ పరిస్థితిలో "]
    thenStep := ["* ", "అప్పుడు "]
    andStep := ["* ", "మరియు "]
    butStep := ["* ", "కాని "] },
  { code := "th"
    name := "Thai"
    native := "ไทย"
    feature := ["โครงหลัก", "ความต้องการทางธุรกิจ", "ความสามารถ"]
    background := ["แนวคิด"]
    rule := ["Rule"]
    scenario := ["เหตุการณ์"]
    scenarioOutline := ["สรุปเหตุการณ์", "โครงสร้างของเหตุการณ์"]
    examples := ["ชุดของตัวอย่าง", "ชุดของเหตุการณ์"]
    givenStep := ["* ", "กำหนดให้ "]
    whenStep := ["* ", "เมื่อ "]
    thenStep := ["* ", "ดังนั้น "]
    andStep := ["* ", "และ "]
    butStep := ["* ", "แต่ "] },
  { code := "tlh"
    name := "Klingon"
    native := "tlhIngan"
    feature := ["Qap", "Qu'meH 'ut", "perbogh", "poQbogh malja'", "laH"]
    background := ["mo'"]
    rule := ["Rule"]
    scenario := ["lut"]
    scenarioOutline := ["lut chovnatlh"]
    examples := ["ghantoH", "lutmey"]
    givenStep := ["* ", "ghu' noblu' ", "DaH ghu' bejlu' "]
    whenStep := ["* ", "qaSDI' "]
    thenStep := ["* ", "vaj "]
    andStep := ["* ", "'ej ", "latlh "]
    butStep := ["* ", "'ach ", "'a "] },
  { code := "tr"
    name := "Turkish"
    native := "Türkçe"
    feature := ["Özellik"]
    background := ["Geçmiş"]
    rule := ["Kural"]
    scenario := ["Örnek", "Senaryo"]
    scenarioOutline := ["Senaryo taslağı"]
    examples := ["Örnekler"]
    givenStep := ["* ", "Diyelim ki "]
    whenStep := ["* ", "Eğer ki "]
    thenStep := ["* ", "O zaman "]
    andStep := ["* ", "Ve "]
    butStep := ["* ", "Fakat ", "Ama "] },
  { code := "tt"
    name := "Tatar"
    native := "Татарча"
    feature := ["Мөмкинлек", "Үзенчәлеклелек"]
    background := ["Кереш"]
    rule := ["Rule"]
    scenario := ["Сценарий"]
    scenarioOutline := ["Сценарийның төзелеше"]
    examples := ["Үрнәкләр", "Мисаллар"]
    givenStep := ["* ", "Әйтик "]
    whenStep := ["* ", "Әгәр "]
    thenStep := ["* ", "Нәтиҗәдә "]
    andStep := ["* ", "Һәм ", "Вә "]
    butStep := ["* ", "Ләкин ", "Әмма "] },
  { code := "uk"
    name := "Ukrainian"
    native := "Українська"
    feature := ["Функціонал"]
    background := ["Передумова"]
    rule := ["Rule"]
    scenario := ["Приклад", "Сценарій"]
    scenarioOutline := ["Структура сценарію"]
    examples := ["Приклади"]
    givenStep := ["* ", "Припустимо ", "Припустимо, що ", "Нехай ", "Дано "]
    whenStep := ["* ", "Якщо ", "Коли "]
    thenStep := ["* ", "То ", "Тоді "]
    andStep := ["* ", "І ", "А також ", "Та "]
    butStep := ["* ", "Але "] },
  { code := "ur"
    name := "Urdu"
    native := "اردو"
    feature := ["صلاحیت", "کاروبار کی ضرورت", "خصوصیت"]
    background := ["پس منظر"]
    rule := ["Rule"]
    scenario := ["منظرنامہ"]
    scenarioOutline := ["منظر نامے کا خاکہ"]
    examples := ["مثالیں"]
    givenStep := ["* ", "اگر ", "بالفرض ", "فرض کیا "]
    whenStep := ["* ", "جب "]
    thenStep := ["* ", "پھر ", "تب "]
    andStep := ["* ", "اور "]
    butStep := ["* ", "لیکن "] },
  { code := "uz"
    name := "Uzbek"
    native := "Узбекча"
    feature := ["Функционал"]
    background := ["Тарих"]
    rule := ["Rule"]
    scenario := ["Сценарий"]
    scenarioOutline := ["Сценарий структураси"]
    examples := ["Мисоллар"]
    givenStep := ["* ", "Агар "]
    whenStep := ["* ", "Агар "]
    thenStep := ["* ", "Унда "]
    andStep := ["* ", "Ва "]
    butStep := ["* ", "Лекин ", "Бирок ", "Аммо "] },
  { code := "vi"
    name := "Vietnamese"
    native := "Tiếng Việt"
    feature := ["Tính năng"]
    background := ["Bối cảnh"]
    rule := ["Rule"]
    scenario := ["Tình huống", "Kịch bản"]
    scenarioOutline := ["Khung tình huống", "Khung kịch bản"]
    examples := ["Dữ liệu"]
    givenStep := ["* ", "Biết ", "Cho "]
    whenStep := ["* ", "Khi "]
    thenStep := ["* ", "Thì "]
    andStep := ["* ", "Và "]
    butStep := ["* ", "Nhưng "] },
  { code := "zh-CN"
    name := "Chinese simplified"
    native := "简体中文"
    feature := ["功能"]
    background := ["背景"]
    rule := ["Rule", "规则"]
    scenario := ["场景", "剧本"]
    scenarioOutline := ["场景大纲", "剧本大纲"]
    examples := ["例子"]
    givenStep := ["* ", "假如", "假设", "假定"]
    whenStep := ["* ", "当"]
    thenStep := ["* ", "那么"]
    andStep := ["* ", "而且", "并且", "同时"]
    butStep := ["* ", "但是"] },
  { code := "zh-TW"
    name := "Chinese traditional"
    native := "繁體中文"
    feature := ["功能"]
    background := ["背景"]
    rule := ["Rule"]
    scenario := ["場景", "劇本"]
    scenarioOutline := ["場景大綱", "劇本大綱"]
    examples := ["例子"]
    givenStep := ["* ", "假如", "假設", "假定"]
    whenStep := ["* ", "當"]
    thenStep := ["* ", "那麼"]
    andStep := ["* ", "而且", "並且", "同時"]
    butStep := ["* ", "但是"] }]

end FeatureLines
